import Coprocessor.Command.Disk

namespace Coprocessor.Command.Disk

/-!
# Writing to a disk

A write that succeeds replaces the file at one place, and one that fails changes
nothing. Which place a path names depends on the directories alone, and no write
changes these, so the places that writes one after the other replace are known
before the first of them, also where several paths name one place.
-/

/-- A text that is to be written to the file that a path names. -/
structure Request where
  path : String
  text : String
  deriving Repr, DecidableEq

/--
The requests have been carried out one after the other, and none of
them has failed.
-/
inductive Carries : Disk → List Request → Disk → Prop where
  | nil (disk : Disk) :
      Carries disk [] disk
  | cons
      {disk next final : Disk}
      {request : Request}
      {rest : List Request} :
      disk.write request.path request.text.toUTF8 = .ok next →
      Carries next rest final →
      Carries disk (request :: rest) final

/--
How the files differ after requests: each place has the text of the
last that names it.
-/
structure Changed
    (disk : Disk)
    (requests : List Request)
    (final : Disk) :
    Prop where
  directories :
    final.directories = disk.directories
  kept :
    ∀ place, (∀ request ∈ requests, disk.resolve request.path ≠ .ok place) →
      final.file? place = disk.file? place
  written :
    ∀ {earlier later : List Request} {request : Request} {place : Place},
      requests = earlier ++ request :: later →
        disk.resolve request.path = .ok place →
        (∀ other ∈ later, disk.resolve other.path ≠ .ok place) →
          final.file? place = some request.text.toUTF8

/-- What a path needs to name a place. -/
theorem resolve_eq_ok_iff
    {disk : Disk}
    {path : String}
    {place : Place} :
    disk.resolve path = .ok place ↔
      path.isEmpty = false ∧
        ∃ parent last, (steps path).getLast? = some last ∧
          disk.walk [] (steps path).dropLast = .ok parent ∧
          ¬ (last = "." ∨ last = "..") ∧
          place = parent ++ [last] := by
  rw [resolve]
  cases path.isEmpty with
  | true =>
      simp
  | false =>
      cases (steps path).getLast? with
      | none =>
          simp
      | some last =>
          cases walks : disk.walk [] (steps path).dropLast with
          | error fault =>
              simp [bind, Except.bind]
          | ok parent =>
              by_cases moves : last = "." ∨ last = ".."
              · simp [bind, Except.bind, moves, -not_or]
              · simp [bind, Except.bind, pure, Except.pure, moves, -not_or,
                  eq_comm (a := place)]

/-- When a write succeeds, and what it does. -/
theorem write_eq_ok_iff
    {disk next : Disk}
    {path : String}
    {contents : ByteArray} :
    disk.write path contents = .ok next ↔
      ∃ place, disk.resolve path = .ok place ∧ endsInSlash path = false ∧
        disk.hasDirectory place = false ∧
        next = disk.setFile place contents := by
  rw [write]
  cases disk.resolve path with
  | error fault =>
      simp [bind, Except.bind]
  | ok place =>
      cases slash : endsInSlash path <;>
        cases known : disk.hasDirectory place <;>
        simp [bind, Except.bind, known, eq_comm (a := next)]

section Directories

variable
    {disk other : Disk}
    (same : other.directories = disk.directories)

include same

theorem hasDirectory_of_directories (place : Place) :
    other.hasDirectory place = disk.hasDirectory place := by
  rw [hasDirectory, hasDirectory, same]

/--
Where steps lead depends on the directories alone; files matter for
the fault only.
-/
theorem walk_of_directories
    {steps : List String}
    {start place : Place}
    (leads : disk.walk start steps = .ok place) :
    other.walk start steps = .ok place := by
  fun_induction walk disk start steps with
  | case1 start =>
      exact leads
  | case2 start rest inductionHypothesis =>
      exact inductionHypothesis leads
  | case3 start rest inductionHypothesis =>
      exact inductionHypothesis leads
  | case4 start name rest notHere notUp isDirectory inductionHypothesis =>
      rw [walk.eq_4 _ _ _ _ notHere notUp, hasDirectory_of_directories same,
        if_pos isDirectory]
      exact inductionHypothesis leads
  | case5 =>
      cases leads
  | case6 =>
      cases leads

/-- Which place a path names depends on the directories alone. -/
theorem resolve_of_directories
    {path : String}
    {place : Place} :
    other.resolve path = .ok place ↔ disk.resolve path = .ok place := by
  have walks :
      ∀ parent, other.walk [] (steps path).dropLast = .ok parent ↔
        disk.walk [] (steps path).dropLast = .ok parent :=
    fun parent => ⟨walk_of_directories same.symm, walk_of_directories same⟩
  simp only [resolve_eq_ok_iff, walks]

end Directories

/--
Requests that have been carried out have changed what they name,
and nothing else.
-/
theorem Carries.changed
    {disk final : Disk}
    {requests : List Request}
    (carries : disk.Carries requests final) :
    disk.Changed requests final := by
  induction carries with
  | nil disk =>
      refine ⟨rfl, fun _ _ => rfl, ?_⟩
      intro earlier later request place shape
      cases earlier <;> cases shape
  | @cons disk next final request rest writes _ inductionHypothesis =>
      obtain ⟨target, named, -, -, rfl⟩ := write_eq_ok_iff.mp writes
      have sameDirectories :
          (disk.setFile target request.text.toUTF8).directories =
            disk.directories :=
        rfl
      obtain ⟨directories, kept, written⟩ := inductionHypothesis
      simp only [ne_eq, resolve_of_directories sameDirectories] at kept written
      refine ⟨directories, ?_, ?_⟩
      · intro place others
        obtain ⟨notFirst, notLater⟩ := List.forall_mem_cons.mp others
        have different : place ≠ target := by
          rintro rfl
          exact notFirst named
        rw [kept place notLater, file?_setFile_of_ne _ different]
      · intro earlier later last place shape isNamed notLater
        cases earlier with
        | nil =>
            obtain ⟨rfl, rfl⟩ := List.cons.inj shape
            obtain rfl := Except.ok.inj (named.symm.trans isNamed)
            rw [kept target notLater, file?_setFile_self]
        | cons first others =>
            exact written (List.cons.inj shape).2 isNamed notLater

end Coprocessor.Command.Disk
