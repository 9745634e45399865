/-
Module: Ppcom.SpeedTable
Purpose: `baud_table` as any platform can have it, with the scans of `term.cpp` over it, and the steps
  that `ppcom.cpp` makes with them.
Trusted boundary: none
Main exports: SpeedTable, SpeedTable.termBaudUp, SpeedTable.termBaudDown, SpeedTable.baudUp,
  SpeedTable.baudDown, Platform.speedTable
-/
import Ppcom.Command

namespace Ppcom

/-- A `baud_table`: it begins with the rate 0, and the rates are strictly increasing. -/
structure SpeedTable where
  entries : List (Int × Word)
  zero : entries.head?.map Prod.fst = some 0
  increasing : (entries.map Prod.fst).Pairwise (· < ·)

namespace SpeedTable

variable (table : SpeedTable)

def speeds : List Int := table.entries.map Prod.fst

/-- `term_baud_up`. -/
def termBaudUp (baud : Int) : Int :=
  match table.entries.find? (fun entry => decide (baud < entry.1)) with
  | some entry => entry.1
  | none => baud

/-- `term_baud_down`. -/
def termBaudDown (baud : Int) : Int :=
  match table.entries.reverse.find? (fun entry => decide (entry.1 < baud)) with
  | some entry => entry.1
  | none => baud

/-- `baud_up`. -/
def baudUp (baud : Int) : Int := table.termBaudUp baud

/-- `baud_down`. -/
def baudDown (baud : Int) : Int :=
  let nb := table.termBaudDown baud
  if nb = 0 then baud else nb

end SpeedTable

namespace Platform

theorem baudTable_zero (plat : Platform) : (baudTable plat).head?.map Prod.fst = some 0 := by
  rcases plat with ⟨_ | _, _⟩ <;> rfl

theorem baudTable_increasing (plat : Platform) :
    ((baudTable plat).map Prod.fst).Pairwise (· < ·) := by
  rcases plat with ⟨_ | _, _ | _⟩ <;> decide

/-- The table of a platform. -/
def speedTable (plat : Platform) : SpeedTable :=
  ⟨baudTable plat, plat.baudTable_zero, plat.baudTable_increasing⟩

theorem termBaudUp_eq (plat : Platform) : termBaudUp plat = plat.speedTable.termBaudUp := rfl

theorem termBaudDown_eq (plat : Platform) : termBaudDown plat = plat.speedTable.termBaudDown := rfl

theorem baudUp_eq (plat : Platform) : baudUp plat = plat.speedTable.baudUp := rfl

theorem baudDown_eq (plat : Platform) : baudDown plat = plat.speedTable.baudDown := rfl

end Platform

end Ppcom
