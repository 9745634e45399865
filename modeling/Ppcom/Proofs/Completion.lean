/-
Module: Ppcom.Proofs.Completion
Purpose: What `file_completion_cb` offers: the entries, in the directory that `dirname` gives for the text,
  that begin with what `basename` gives. These are the ones asked for where the text goes on behind its
  last slash. For a text that does not, another directory or other names are taken.
Trusted boundary: none
Main exports: strncmp_eq_zero_iff, buildPath_holds, Offers.foldl, completes_perm_iff, Coincides,
  file_completion_iff
-/
import Mathlib.Data.List.Nodup
import Ppcom.Spec.Completion

namespace Ppcom

open Pathname

/-! ### Names and paths -/

/-- `strncmp` with the length of the first string finds the names that begin with it. -/
theorem strncmp_eq_zero_iff {s t : List UInt8} (noNul : 0 ∉ s) :
    strncmp s t s.length = 0 ↔ s.isPrefixOf t = true := by
  induction s generalizing t with
  | nil => simp [strncmp]
  | cons c s ih =>
      have live : c ≠ 0 := fun zero => noNul (zero ▸ List.mem_cons_self ..)
      cases t with
      | nil =>
          have value : c.toNat ≠ 0 := fun zero => live (UInt8.toNat_inj.mp zero)
          simp [strncmp, live, value]
      | cons d t =>
          by_cases same : c = d
          · subst same
            have rest := ih (t := t) fun inside => noNul (List.mem_cons_of_mem c inside)
            simp [strncmp, live, rest]
          · have values : (c.toNat : Int) - d.toNat ≠ 0 := by
              intro zero
              exact same (UInt8.toNat_inj.mp (by omega))
            simp [strncmp, same, values]

variable {dirn basen name : List UInt8}

/-- The path that is built is the directory, closed with a slash, and the name; it leaves room for another
slash. -/
theorem buildPath_holds (cells : Nat → UInt8) (nonempty : dirn ≠ []) (noNul : 0 ∉ dirn)
    (isName : IsName name) :
    (buildPath cells dirn name).Holds (closed dirn ++ name) ∧
      (closed dirn ++ name).length + 1 < (buildPath cells dirn name).size := by
  have long : 0 < dirn.length := List.length_pos_iff.mpr nonempty
  have named : 0 < name.length := List.length_pos_iff.mpr isName.nonempty
  set block := StringBlock.malloc (name.length + dirn.length + 3) cells with allocated
  have size : block.size = name.length + dirn.length + 3 := rfl
  have copied : (block.store 0 (dirn ++ [0])).Holds dirn :=
    .start (fun _ made => nomatch made) noNul (by omega)
  have last : (block.store 0 (dirn ++ [0])).cells (dirn.length - 1) ≠ slash ↔
      ¬ dirn.getLast? = some slash := by
    rw [copied.cells _ (Nat.sub_le ..), List.getLast?_eq_getElem?,
      List.getElem?_eq_getElem (by omega)]
    simp
  unfold buildPath
  dsimp only
  rw [← allocated]
  unfold closed StringBlock.strncat
  rw [List.take_length]
  by_cases ends : dirn.getLast? = some slash
  · rw [if_neg (fun plain => last.mp plain ends), if_pos ends]
    constructor
    · apply copied.strcat isName.noNul
      simp only [StringBlock.size_store]
      omega
    · simp only [StringBlock.size_store, StringBlock.size_strcat, List.length_append]
      omega
  · rw [if_pos (last.mpr ends), if_neg ends]
    have slashed := copied.strcat (t := [slash]) (by decide) (by
      simp only [StringBlock.size_store, List.length_singleton]
      omega)
    constructor
    · apply slashed.strcat isName.noNul
      simp only [StringBlock.size_store, StringBlock.size_strcat, List.length_append,
        List.length_singleton]
      omega
    · simp only [StringBlock.size_store, StringBlock.size_strcat, List.length_append,
        List.length_singleton]
      omega

/-! ### What is offered -/

variable {Node : Type} {fs : FileSystem Node} {d : Node}

/-- A completion is of one entry. -/
theorem Names.unique {completion : List UInt8} {entry entry' : Node × List UInt8}
    (names : Names fs completion entry) (other : Names fs completion entry') : entry = entry' := by
  obtain ⟨path, node, denotes, _, shape⟩ := names
  obtain ⟨path', node', denotes', _, shape'⟩ := other
  have same : path = path' := by
    rw [shape] at shape'
    split at shape' <;> split at shape'
    · exact List.append_cancel_right shape'
    · exact absurd (shape' ▸ List.getLast?_concat ..) denotes'.last
    · exact absurd (shape' ▸ List.getLast?_concat ..) denotes.last
    · exact shape'
  subst same
  obtain ⟨place, name⟩ := denotes.unique denotes'
  exact Prod.ext place name

theorem Names.entries_unique {cvec : List (List UInt8)} {entries entries' : List (Node × List UInt8)}
    (names : List.Forall₂ (Names fs) cvec entries) (other : List.Forall₂ (Names fs) cvec entries') :
    entries = entries' := by
  induction names generalizing entries' with
  | nil =>
      cases other
      rfl
  | cons first _ ih =>
      cases other with
      | cons first' rest' => rw [first.unique first', ih rest']

/-- So far `entries` were offered, and the paths that were built fit their blocks. -/
structure Offers (fs : FileSystem Node) (lc : Completions) (entries : List (Node × List UInt8)) :
    Prop where
  named : List.Forall₂ (Names fs) lc.cvec entries
  fits : ∀ path ∈ lc.paths, path.Within

theorem askedOf_cons_pos {start : List UInt8} (names : List (List UInt8))
    (begins : start.isPrefixOf name = true) (found : (fs.lookup d name).isSome = true) :
    fs.askedOf d start (name :: names) = (d, name) :: fs.askedOf d start names := by
  unfold FileSystem.askedOf
  rw [List.filter_cons_of_pos (by rw [begins, found]; rfl), List.map_cons]

theorem askedOf_cons_neg {start : List UInt8} (names : List (List UInt8))
    (other : ¬ (start.isPrefixOf name = true ∧ (fs.lookup d name).isSome = true)) :
    fs.askedOf d start (name :: names) = fs.askedOf d start names := by
  unfold FileSystem.askedOf
  rw [List.filter_cons_of_neg (by rwa [Bool.and_eq_true])]

theorem Offers.path {lc : Completions} {entries : List (Node × List UInt8)} {path : StringBlock}
    (offers : Offers fs lc entries) (within : path.Within) :
    ∀ built ∈ lc.paths ++ [path], built.Within := by
  intro built inside
  rcases List.mem_append.mp inside with earlier | this
  · exact offers.fits built earlier
  · rw [List.mem_singleton.mp this]
    exact within

/-- The callback reads the directory `d` under the name `dirn`, for names that begin with `basen`. -/
structure Reads (fs : FileSystem Node) (d : Node) (dirn basen : List UInt8) : Prop where
  directory : fs.resolve (closed dirn) = some d
  nonempty : dirn ≠ []
  noNul : 0 ∉ dirn
  plain : 0 ∉ basen

section Turn

variable {heap : Nat → Nat → UInt8} {lc : Completions} {entries : List (Node × List UInt8)}

/-- `stat` of the path that is built looks at the entry. -/
theorem Reads.stat (reads : Reads fs d dirn basen) (cells : Nat → UInt8) (isName : IsName name) :
    fs.stat (buildPath cells dirn name).text = (fs.lookup d name).map fs.isDir := by
  rw [(buildPath_holds cells reads.nonempty reads.noNul isName).1.text]
  exact congrArg (Option.map fs.isDir) (FileSystem.resolve_closed_entry reads.directory isName)

/-- An entry that does not begin as asked for is left out. -/
theorem Reads.skips (reads : Reads fs d dirn basen) (begins : ¬ basen.isPrefixOf name = true) :
    completeEntry fs heap dirn basen lc name = lc :=
  if_neg fun same => begins ((strncmp_eq_zero_iff reads.plain).mp same)

/-- Of one that leads to no file, only the path is built. -/
theorem Reads.builds (reads : Reads fs d dirn basen) (isName : IsName name)
    (begins : basen.isPrefixOf name = true) (lost : fs.lookup d name = none) :
    completeEntry fs heap dirn basen lc name =
      { lc with paths := lc.paths ++ [buildPath (heap lc.paths.length) dirn name] } := by
  have looked := reads.stat (heap lc.paths.length) isName
  rw [lost] at looked
  unfold completeEntry
  rw [if_pos ((strncmp_eq_zero_iff reads.plain).mpr begins)]
  dsimp only
  rw [looked]
  rfl

/-- Of one that leads to a file, the path is offered, with a slash if it is a directory. -/
theorem Reads.offers (reads : Reads fs d dirn basen) (isName : IsName name)
    (begins : basen.isPrefixOf name = true) {node : Node} (found : fs.lookup d name = some node) :
    let path := buildPath (heap lc.paths.length) dirn name
    let fullpath := if fs.isDir node then path.strcat [slash] else path
    completeEntry fs heap dirn basen lc name =
      { lc with paths := lc.paths ++ [fullpath] }.add fullpath.text := by
  have looked := reads.stat (heap lc.paths.length) isName
  rw [found] at looked
  unfold completeEntry
  rw [if_pos ((strncmp_eq_zero_iff reads.plain).mpr begins)]
  dsimp only
  rw [looked]
  rfl

/-- A turn of the loop offers an entry that is asked for. -/
theorem Offers.entry (offers : Offers fs lc entries) (reads : Reads fs d dirn basen)
    (isName : IsName name) (begins : basen.isPrefixOf name = true) {node : Node}
    (found : fs.lookup d name = some node) :
    Offers fs (completeEntry fs heap dirn basen lc name) (entries ++ [(d, name)]) := by
  obtain ⟨holds, room⟩ :=
    buildPath_holds (heap lc.paths.length) reads.nonempty reads.noNul isName
  have denotes := FileSystem.denotes_closed reads.directory isName
  rw [reads.offers isName begins found]
  cases isDir : fs.isDir node with
  | false =>
      have names : Names fs (buildPath (heap lc.paths.length) dirn name).text (d, name) :=
        ⟨_, node, denotes, found, by rw [isDir, holds.text]; rfl⟩
      exact ⟨List.rel_append offers.named (.cons names .nil), offers.path holds.within⟩
  | true =>
      have slashed := holds.strcat (t := [slash]) (by decide) room
      have names : Names fs ((buildPath (heap lc.paths.length) dirn name).strcat [slash]).text
          (d, name) :=
        ⟨_, node, denotes, found, by rw [isDir, slashed.text]; rfl⟩
      exact ⟨List.rel_append offers.named (.cons names .nil), offers.path slashed.within⟩

/-- A turn of the loop offers no other entry. -/
theorem Offers.other (offers : Offers fs lc entries) (reads : Reads fs d dirn basen)
    (isName : IsName name)
    (other : ¬ (basen.isPrefixOf name = true ∧ (fs.lookup d name).isSome = true)) :
    Offers fs (completeEntry fs heap dirn basen lc name) entries := by
  by_cases begins : basen.isPrefixOf name = true
  · have lost : fs.lookup d name = none := by
      by_contra found
      exact other ⟨begins, Option.isSome_iff_ne_none.mpr found⟩
    have holds := (buildPath_holds (heap lc.paths.length) reads.nonempty reads.noNul isName).1
    rw [reads.builds isName begins lost]
    exact ⟨offers.named, offers.path holds.within⟩
  · rw [reads.skips begins]
    exact offers

/-- The loop offers the entries that are asked for. -/
theorem Offers.foldl {names : List (List UInt8)} (offers : Offers fs lc entries)
    (reads : Reads fs d dirn basen) (isName : ∀ name ∈ names, IsName name) :
    Offers fs (names.foldl (completeEntry fs heap dirn basen) lc)
      (entries ++ fs.askedOf d basen names) := by
  induction names generalizing lc entries with
  | nil =>
      show Offers fs lc (entries ++ [])
      rwa [List.append_nil]
  | cons name names ih =>
      have this := isName name (List.mem_cons_self ..)
      have others : ∀ name ∈ names, IsName name := fun name inside =>
        isName name (List.mem_cons_of_mem _ inside)
      by_cases both : basen.isPrefixOf name = true ∧ (fs.lookup d name).isSome = true
      · obtain ⟨begins, leads⟩ := both
        obtain ⟨node, found⟩ := Option.isSome_iff_exists.mp leads
        rw [askedOf_cons_pos names begins leads, List.append_cons]
        exact ih (offers.entry reads this begins found) others
      · rw [askedOf_cons_neg names both]
        exact ih (offers.other reads this both) others

end Turn

/-! ### The directory that is read -/

/-- Neither of the two functions makes a terminator. -/
theorem Typed.not_nul (typed : Typed) : ¬ (0 ∈ typed.text ∨ (0 : UInt8) = slash ∨ 0 ∈ dot) := by
  rintro (inside | same | dotted)
  · exact typed.noNul inside
  · exact absurd same (by decide)
  · exact absurd dotted (by decide)

/-- Whatever the text is, the entries are offered that begin with its `basename`, in the directory that its
`dirname` leads to. -/
theorem fileCompletionCb_offers (libgen : Libgen) (fs : FileSystem Node) (heap : Nat → Nat → UInt8)
    (typed : Typed) :
    Offers fs (fileCompletionCb libgen fs heap typed.text)
      (fs.asked (fs.resolve (dirname libgen.dirnameKeeps typed.text))
        (basename libgen.basenameKeeps typed.text)) := by
  have nothing : Offers fs ⟨[], []⟩ [] := ⟨.nil, nofun⟩
  have nonempty := dirname_nonempty libgen.dirnameKeeps typed.text
  unfold fileCompletionCb FileSystem.opendir FileSystem.asked
  dsimp only
  cases resolved : fs.resolve (dirname libgen.dirnameKeeps typed.text) with
  | none => exact nothing
  | some d =>
      rw [Option.bind_some]
      dsimp only
      cases listed : fs.entries d with
      | none => exact nothing
      | some names =>
          have directory : fs.resolve (closed (dirname libgen.dirnameKeeps typed.text)) = some d := by
            rw [FileSystem.resolve_closed nonempty, resolved]
            exact Option.filter_some_pos (fs.isDir_of_entries d names listed)
          have reads : Reads fs d (dirname libgen.dirnameKeeps typed.text)
              (basename libgen.basenameKeeps typed.text) :=
            ⟨directory, nonempty, fun nul => typed.not_nul (mem_dirname nul),
              fun nul => typed.not_nul (mem_basename nul)⟩
          exact nothing.foldl reads (fs.isName d names listed)

/-- The completions are the right ones exactly if the entries asked for are those that begin with the
`basename` in the directory of the `dirname`. -/
theorem completes_perm_iff (libgen : Libgen) (fs : FileSystem Node) (heap : Nat → Nat → UInt8)
    (typed : Typed) :
    Completes fs typed (fileCompletionCb libgen fs heap typed.text) ↔
      (fs.asked (fs.resolve (dirname libgen.dirnameKeeps typed.text))
        (basename libgen.basenameKeeps typed.text)).Perm
          (fs.asked (fs.directory typed.dir) typed.start) := by
  have offers := fileCompletionCb_offers libgen fs heap typed
  constructor
  · intro completes
    obtain ⟨entries, perm, named⟩ := completes.named
    rwa [Names.entries_unique offers.named named]
  · intro perm
    exact ⟨⟨_, perm, offers.named⟩, offers.fits⟩

theorem asked_filter (dir : Option Node) (start : List UInt8) :
    fs.asked (dir.filter fs.isDir) start = fs.asked dir start := by
  cases dir with
  | none => rfl
  | some d =>
      cases isDir : fs.isDir d with
      | true => rw [Option.filter_some_pos isDir]
      | false =>
          have unread : fs.entries d = none := by
            cases listed : fs.entries d with
            | none => rfl
            | some names =>
                rw [fs.isDir_of_entries d names listed] at isDir
                cases isDir
          rw [Option.filter_some_neg isDir]
          show [] = fs.askedOf d start ((fs.entries d).getD [])
          rw [unread]
          rfl

/-- In a directory that may not be searched there is nothing to ask for. -/
theorem asked_unsearched (start : List UInt8) (closed : ∀ name, fs.lookup d name = none) :
    fs.asked (some d) start = [] := by
  unfold FileSystem.asked FileSystem.askedOf
  simp [closed]

/-- The directory that `dirname` gives for a text before a name has the entries asked for. -/
theorem asked_directoryOf (keepTwo : Bool) {front : List UInt8} (ends : EndsDirectory front)
    (start : List UInt8) :
    fs.asked (fs.resolve (directoryOf keepTwo front)) start = fs.asked (fs.directory front) start := by
  unfold FileSystem.directory
  by_cases empty : front = []
  · subst empty
    show fs.asked (fs.resolve dot) start = fs.asked (some fs.cwd) start
    rw [FileSystem.resolve_dot]
    rcases fs.lookup_dot fs.cwd with here | closed
    · rw [here]
    · rw [closed, asked_unsearched start closed]
      rfl
  · rw [if_neg empty, FileSystem.resolve_directoryOf keepTwo ends empty, asked_filter]

theorem nodup_asked (fs : FileSystem Node) (dir : Option Node) (start : List UInt8) :
    (fs.asked dir start).Nodup := by
  cases dir with
  | none => exact List.nodup_nil
  | some d =>
      have names : ((fs.entries d).getD []).Nodup := by
        cases listed : fs.entries d with
        | none => exact List.nodup_nil
        | some names => exact fs.nodup d names listed
      have apart : Function.Injective fun name : List UInt8 => (d, name) :=
        fun name name' same => (Prod.mk.inj same).2
      exact List.Nodup.map apart (names.filter _)

/-- Of the entries of a directory, those are asked for that begin so. -/
theorem mem_asked_iff {dir : Option Node} {start : List UInt8} {entry : Node × List UInt8} :
    entry ∈ fs.asked dir start ↔ entry ∈ fs.asked dir [] ∧ start.isPrefixOf entry.2 = true := by
  cases dir with
  | none => simp [FileSystem.asked]
  | some d =>
      unfold FileSystem.asked FileSystem.askedOf
      simp only [List.mem_map, List.mem_filter, Bool.and_eq_true]
      constructor
      · rintro ⟨name, ⟨listed, begins, leads⟩, rfl⟩
        exact ⟨⟨name, ⟨listed, rfl, leads⟩, rfl⟩, begins⟩
      · rintro ⟨⟨name, ⟨listed, _, leads⟩, rfl⟩, begins⟩
        exact ⟨name, ⟨listed, begins, leads⟩, rfl⟩

/-- No entry has a slash in its name. -/
theorem isName_of_asked {dir : Option Node} {start : List UInt8} {entry : Node × List UInt8}
    (asked : entry ∈ fs.asked dir start) : IsName entry.2 := by
  cases dir with
  | none => cases asked
  | some d =>
      obtain ⟨name, inside, rfl⟩ := List.mem_map.mp asked
      have listed := (List.mem_filter.mp inside).1
      cases names : fs.entries d with
      | none =>
          rw [names] at listed
          cases listed
      | some names' =>
          rw [names] at listed
          exact fs.isName d names' names name listed

/-! ### When the completions are the right ones -/

/-- The entries of the directory `dir` are those of the directory that `dirname` gives for `dir` which
begin with its `basename`. -/
def Coincides (libgen : Libgen) (fs : FileSystem Node) (dir : List UInt8) : Prop :=
  ∀ entry, entry ∈ fs.asked (fs.directory dir) [] ↔
    entry ∈ fs.asked (fs.resolve (dirname libgen.dirnameKeeps dir))
      (basename libgen.basenameKeeps dir)

/-- For the empty text, all entries of the current directory have to begin with a dot. -/
theorem coincides_nil_iff (libgen : Libgen) (fs : FileSystem Node) :
    Coincides libgen fs [] ↔ ∀ entry ∈ fs.asked (some fs.cwd) [], dot.isPrefixOf entry.2 = true := by
  have above : ∀ entry, entry ∈ fs.asked (fs.resolve (dirname libgen.dirnameKeeps []))
      (basename libgen.basenameKeeps []) ↔ entry ∈ fs.asked (some fs.cwd) dot := by
    intro entry
    rw [show dirname libgen.dirnameKeeps [] = directoryOf libgen.dirnameKeeps [] from rfl,
      asked_directoryOf _ (.inl rfl)]
    rfl
  constructor
  · intro coincides entry inside
    exact (mem_asked_iff.mp ((above entry).mp ((coincides entry).mp inside))).2
  · intro dotted entry
    constructor
    · intro inside
      exact (above entry).mpr (mem_asked_iff.mpr ⟨inside, dotted entry inside⟩)
    · intro offered
      exact (mem_asked_iff.mp ((above entry).mp offered)).1

/-- For slashes alone, there may be no entries in the root. -/
theorem coincides_slashes_iff (libgen : Libgen) (fs : FileSystem Node) {dir : List UInt8}
    (nonempty : dir ≠ []) (slashes : strip dir = []) :
    Coincides libgen fs dir ↔ fs.asked (fs.directory dir) [] = [] := by
  have last : basename libgen.basenameKeeps dir = root libgen.basenameKeeps dir := by
    unfold basename
    rw [if_neg nonempty, if_pos slashes]
  have nothing : fs.asked (fs.resolve (dirname libgen.dirnameKeeps dir))
      (basename libgen.basenameKeeps dir) = [] := by
    apply List.eq_nil_iff_forall_not_mem.mpr
    intro entry asked
    have begins := List.isPrefixOf_iff_prefix.mp (mem_asked_iff.mp asked).2
    rw [last] at begins
    obtain ⟨c, rest, shape⟩ := List.exists_cons_of_ne_nil (root_nonempty libgen.basenameKeeps dir)
    have first : c ∈ root libgen.basenameKeeps dir := shape ▸ List.mem_cons_self ..
    have inside := begins.subset first
    rw [mem_root first] at inside
    exact (isName_of_asked asked).noSlash inside
  unfold Coincides
  rw [nothing, List.eq_nil_iff_forall_not_mem]
  exact forall_congr' fun entry => iff_false_right List.not_mem_nil

/-- A text that goes on behind its last slash is completed as it should be, whatever the files are. -/
theorem completes_of_start (libgen : Libgen) (fs : FileSystem Node) (heap : Nat → Nat → UInt8)
    {typed : Typed} (goesOn : typed.start ≠ []) :
    Completes fs typed (fileCompletionCb libgen fs heap typed.text) := by
  rw [completes_perm_iff]
  unfold Typed.text
  rw [dirname_append typed.ends goesOn typed.noSlash,
    basename_append typed.ends goesOn typed.noSlash, asked_directoryOf _ typed.ends]

/-- One that does not is completed as it should be only where the two directories coincide. -/
theorem completes_iff_of_nil (libgen : Libgen) (fs : FileSystem Node) (heap : Nat → Nat → UInt8)
    {typed : Typed} (ended : typed.start = []) :
    Completes fs typed (fileCompletionCb libgen fs heap typed.text) ↔
      Coincides libgen fs typed.dir := by
  have text : typed.text = typed.dir := by
    unfold Typed.text
    rw [ended, List.append_nil]
  rw [completes_perm_iff, text, ended,
    List.perm_ext_iff_of_nodup (nodup_asked ..) (nodup_asked ..)]
  constructor
  · intro same entry
    exact (same entry).symm
  · intro same entry
    exact (same entry).symm

/-- A directory with the entries `x` and `y`, which lead back to it, and no others. -/
def twoLinks : FileSystem Unit where
  root := ()
  cwd := ()
  lookup _ _ := some ()
  entries _ := some [ascii "x", ascii "y"]
  isDir _ := true
  lookup_dot _ := .inl rfl
  isDir_of_entries _ _ _ := rfl
  isName := by
    rintro _ _ ⟨⟩
    decide
  nodup := by
    rintro _ _ ⟨⟩
    decide

/-- No name that is not empty begins both entries. -/
theorem twoLinks_not_coincides (libgen : Libgen) (dir : List UInt8) :
    ¬ Coincides libgen twoLinks dir := by
  intro coincides
  have directory : twoLinks.directory dir = some () := by
    unfold FileSystem.directory
    by_cases empty : dir = []
    · exact if_pos empty
    · rw [if_neg empty]
      unfold FileSystem.resolve
      rw [if_neg empty]
      have walked : ∀ names : List (List UInt8), names.foldlM twoLinks.lookup () = some () := by
        intro names
        induction names with
        | nil => rfl
        | cons name names ih => exact ih
      rw [show twoLinks.start dir = () from rfl, walked]
      exact Option.filter_some_pos (Bool.or_true _)
  have begins : ∀ name ∈ [ascii "x", ascii "y"],
      (basename libgen.basenameKeeps dir).isPrefixOf name = true := by
    intro name inside
    have asked : ((), name) ∈ twoLinks.asked (twoLinks.directory dir) [] := by
      rw [directory]
      exact List.mem_map.mpr ⟨name, List.mem_filter.mpr ⟨inside, rfl⟩, rfl⟩
    exact (mem_asked_iff.mp ((coincides ((), name)).mp asked)).2
  have x := List.isPrefixOf_iff_prefix.mp (begins _ (List.mem_cons_self ..))
  have y := List.isPrefixOf_iff_prefix.mp (begins _ (List.mem_cons_of_mem _ (List.mem_cons_self ..)))
  obtain ⟨c, rest, shape⟩ := List.exists_cons_of_ne_nil (basename_nonempty libgen.basenameKeeps dir)
  rw [shape] at x y
  have first := (List.cons_prefix_cons.mp x).1
  have second := (List.cons_prefix_cons.mp y).1
  exact absurd (first.symm.trans second) (by decide)

/-- The completions of a text name exactly the entries asked for if the text goes on behind its last slash,
or else if the directories coincide; and this is so whatever the files are only for a text that goes
on. -/
theorem file_completion_iff (libgen : Libgen) (typed : Typed) :
    (∀ {Node : Type} (fs : FileSystem Node) (heap : Nat → Nat → UInt8),
      Completes fs typed (fileCompletionCb libgen fs heap typed.text) ↔
        typed.start ≠ [] ∨ Coincides libgen fs typed.dir) ∧
    ((∀ {Node : Type} (fs : FileSystem Node) (heap : Nat → Nat → UInt8),
      Completes fs typed (fileCompletionCb libgen fs heap typed.text)) ↔ typed.start ≠ []) := by
  by_cases ended : typed.start = []
  · constructor
    · intro Node fs heap
      rw [completes_iff_of_nil libgen fs heap ended]
      exact (or_iff_right fun goesOn => goesOn ended).symm
    · apply iff_of_false
      · intro every
        have completes := every twoLinks fun _ _ => 0
        rw [completes_iff_of_nil libgen twoLinks _ ended] at completes
        exact twoLinks_not_coincides libgen typed.dir completes
      · intro goesOn
        exact goesOn ended
  · constructor
    · intro Node fs heap
      exact iff_of_true (completes_of_start libgen fs heap ended) (.inl ended)
    · apply iff_of_true
      · intro Node fs heap
        exact completes_of_start libgen fs heap ended
      · exact ended

/-- The files of a directory with a directory `log` in it. -/
inductive LogNode where
  | top
  | log
  | file
deriving DecidableEq, Repr

/-- The current directory has the directory `log`, which has the file `a`. -/
def logFiles : FileSystem LogNode where
  root := .top
  cwd := .top
  lookup
    | .top, name =>
        if name = dot ∨ name = ascii ".." then some .top
        else if name = ascii "log" then some .log
        else none
    | .log, name =>
        if name = dot then some .log
        else if name = ascii ".." then some .top
        else if name = ascii "a" then some .file
        else none
    | .file, _ => none
  entries
    | .top => some [dot, ascii "..", ascii "log"]
    | .log => some [dot, ascii "..", ascii "a"]
    | .file => none
  isDir node := node ≠ .file
  lookup_dot
    | .top => .inl rfl
    | .log => .inl rfl
    | .file => .inr fun _ => rfl
  isDir_of_entries
    | .top, _, _ => rfl
    | .log, _, _ => rfl
    | .file, _, listed => nomatch listed
  isName := by
    rintro (_ | _ | _) _ ⟨⟩
    · decide
    · decide
  nodup := by
    rintro (_ | _ | _) _ ⟨⟩
    · decide
    · decide

/-- The text `log/`. -/
def logTyped : Typed where
  dir := ascii "log/"
  start := []
  ends := .inr ⟨ascii "log", by decide⟩
  noSlash := List.not_mem_nil
  noNul := by decide

/-- For the text `log/` the directory itself is offered again, as `./log/`, and nothing that is in it. -/
theorem file_completion_stays :
    (fileCompletionCb ⟨true, false⟩ logFiles (fun _ _ => 0) logTyped.text).cvec = [ascii "./log/"] ∧
      ¬ Completes logFiles logTyped
        (fileCompletionCb ⟨true, false⟩ logFiles (fun _ _ => 0) logTyped.text) := by
  apply And.intro (by decide)
  intro completes
  rw [completes_iff_of_nil _ _ _ rfl] at completes
  have inside : (LogNode.log, ascii "a") ∈ logFiles.asked (logFiles.directory logTyped.dir) [] := by
    decide
  exact absurd ((completes _).mp inside) (by decide)

end Ppcom
