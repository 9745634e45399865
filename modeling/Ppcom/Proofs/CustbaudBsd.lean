/-
Module: Ppcom.Proofs.CustbaudBsd
Purpose: `tcsetattr_custom` sets what it is asked for or leaves the device as it was, as far as the calls
  that restore it succeed.
Trusted boundary: none
Main exports: AllOrNothing, tcsetattrCustom_allOrNothing
-/
import Ppcom.CustbaudBsd
import Ppcom.Lib.Program

namespace Ppcom

/-- The calls that restore the old settings, as far as they were made, succeeded. -/
def BsdDevice.Restored (d : BsdDevice) : Prop := ∀ succeeds ∈ d.recovery, succeeds = true

/-- The ways in which a call of `tcsetattr_custom` ends. -/
inductive CustomEnd (prior tiop : BsdTermios) : EStateM.Result Unit BsdDevice Unit → Prop where
  | plain : CustomEnd prior tiop (.ok ⟨⟩ ⟨tiop, []⟩)
  | custom : CustomEnd prior tiop (.ok ⟨⟩ ⟨tiop.withSpeed tiop.cOspeed, []⟩)
  | refused : CustomEnd prior tiop (.error ⟨⟩ ⟨prior, []⟩)
  | restored : CustomEnd prior tiop (.error ⟨⟩ ⟨prior.withSpeed prior.cOspeed, [true, true, true]⟩)
  | lost {d : BsdDevice} (failed : false ∈ d.recovery) : CustomEnd prior tiop (.error ⟨⟩ d)

section Runs

variable {plat : Platform} {replies : BsdReplies} {fd : Int} {prior tiop : BsdTermios}

/-- Restoring the old settings succeeds altogether, or one of its calls fails. -/
theorem run_restoreOld (replies : BsdReplies) (tio0 : BsdTermios) (d : BsdTermios) :
    Program.final ((restoreOld replies tio0).run ⟨d, []⟩) =
        ⟨tio0.withSpeed tio0.cOspeed, [true, true, true]⟩ ∨
      false ∈ (Program.final ((restoreOld replies tio0).run ⟨d, []⟩)).recovery := by
  unfold restoreOld
  cases replies.cfsetspeed0 with
  | false => exact .inr (List.mem_singleton_self _)
  | true =>
      cases replies.tcsetattr0 with
      | false => exact .inr (List.mem_append_right [true] (List.mem_singleton_self false))
      | true =>
          cases replies.iossiospeed0 with
          | false => exact .inr (List.mem_append_right [true, true] (List.mem_singleton_self false))
          | true => exact .inl rfl

/-- What was restored is followed by `return -1` in any case. -/
theorem run_then_fail (x : BsdM Unit) (d : BsdDevice) :
    (do
      x
      throw () : BsdM Unit).run d = .error ⟨⟩ (Program.final (x.run d)) := by
  rw [EStateM.run_bind]
  cases x.run d <;> rfl

/-- A call without the workaround is a `tcsetattr`. -/
theorem end_plain (usual : needsWorkaround plat fd tiop.cOspeed = false) :
    CustomEnd prior tiop ((tcsetattrCustom plat replies fd tiop).run ⟨prior, []⟩) := by
  unfold tcsetattrCustom prepareCustom
  rw [usual]
  cases replies.tcsetattr with
  | false => exact .refused
  | true => exact .plain

theorem end_workaround (around : needsWorkaround plat fd tiop.cOspeed = true) :
    CustomEnd prior tiop ((tcsetattrCustom plat replies fd tiop).run ⟨prior, []⟩) := by
  unfold tcsetattrCustom prepareCustom
  rw [around]
  cases replies.tcgetattr with
  | false => exact .refused
  | true =>
  cases replies.cfsetspeed with
  | false => exact .refused
  | true =>
  cases replies.tcsetattr with
  | false => exact .refused
  | true =>
  cases replies.iossiospeed with
  | true => exact .custom
  | false =>
      change CustomEnd prior tiop ((do
        restoreOld replies prior
        throw () : BsdM Unit).run ⟨tiop.withSpeed b9600, []⟩)
      rw [run_then_fail]
      rcases run_restoreOld replies prior (tiop.withSpeed b9600) with restored | failed
      · rw [restored]
        exact .restored
      · exact .lost failed

end Runs

/-- What a call of `tcsetattr_custom` for `tiop` on a device with the settings `prior` may end with. -/
structure AllOrNothing (prior tiop : BsdTermios) (r : EStateM.Result Unit BsdDevice Unit) : Prop where
  done : customRval r = 0 → (Program.final r).termios.flags = tiop.flags ∧
    (Program.final r).termios.cOspeed = tiop.cOspeed
  undone : customRval r = -1 → (Program.final r).Restored → (Program.final r).termios = prior
  /-- The speed left is one of those asked for and there before, and no other in between. -/
  settled : (Program.final r).Restored →
    (Program.final r).termios.cOspeed = tiop.cOspeed ∨ (Program.final r).termios.cOspeed = prior.cOspeed

/-- `tcsetattr_custom` is all or nothing on a device with one speed for both directions. -/
theorem tcsetattrCustom_allOrNothing (plat : Platform) (replies : BsdReplies) (fd : Int)
    (prior tiop : BsdTermios) (equal : prior.cIspeed = prior.cOspeed) :
    AllOrNothing prior tiop ((tcsetattrCustom plat replies fd tiop).run ⟨prior, []⟩) := by
  have same : prior.withSpeed prior.cOspeed = prior := by
    obtain ⟨flags, ispeed, ospeed⟩ := prior
    cases equal
    rfl
  have ends : CustomEnd prior tiop ((tcsetattrCustom plat replies fd tiop).run ⟨prior, []⟩) := by
    cases around : needsWorkaround plat fd tiop.cOspeed with
    | true => exact end_workaround around
    | false => exact end_plain around
  generalize (tcsetattrCustom plat replies fd tiop).run ⟨prior, []⟩ = r at ends ⊢
  cases ends with
  | plain => exact ⟨fun _ => ⟨rfl, rfl⟩, fun failed => (by cases failed), fun _ => .inl rfl⟩
  | custom => exact ⟨fun _ => ⟨rfl, rfl⟩, fun failed => (by cases failed), fun _ => .inl rfl⟩
  | refused => exact ⟨fun ok => (by cases ok), fun _ _ => rfl, fun _ => .inr rfl⟩
  | restored => exact ⟨fun ok => (by cases ok), fun _ _ => same, fun _ => .inr rfl⟩
  | lost failed =>
      -- one of the calls that restore the settings was made and failed
      have lost : ∀ {d : BsdDevice}, false ∈ d.recovery → ¬ d.Restored :=
        fun failed restored => Bool.false_ne_true (restored _ failed)
      exact ⟨fun ok => (by cases ok), fun _ restored => absurd restored (lost failed),
        fun restored => absurd restored (lost failed)⟩

/-- 8 data bits at 9600 baud. -/
def bsd9600 : BsdTermios := ⟨⟨0, 0, 0x4b00, 0, Vector.replicate 20 0⟩, 9600, 9600⟩

theorem tcsetattrCustom_allOrNothing_12345 :
    AllOrNothing bsd9600 (bsd9600.withSpeed 12345) ((tcsetattrCustom ⟨true, true⟩
      ⟨true, true, true, false, true, true, true⟩ 3 (bsd9600.withSpeed 12345)).run ⟨bsd9600, []⟩) :=
  tcsetattrCustom_allOrNothing _ _ _ _ _ rfl

end Ppcom
