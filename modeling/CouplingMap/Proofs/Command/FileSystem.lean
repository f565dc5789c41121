import CouplingMap.Command.FileSystem
import CouplingMap.Proofs.Json.Reader

/-!
# Writing, then reading

A file that is written changes what stands at one place. All folders stay, so the path that the
file was written to leads to it afterwards.

* `FileSystem.entry_put`: what stands where after a file was written.
* `FileSystem.walk_keep`: a walk leads to the same folder as before.
* `FileSystem.target_eq_file`: the path of a file is a walk to a folder and a name there.
* `FileSystem.read_put`: under the path to which a content was written, it is read.
* `FileSystem.Takes`: a file can be written to a path.
-/

namespace CouplingMap.FileSystem

variable {s : FileSystem} {slot : s.Slot} {content : ByteArray} {place : Place}
  {path name text : String} {dir dir' : s.Dir}

/-! ## The system with a file -/

theorem entry_put (slot : s.Slot) (content : ByteArray) (place : Place) :
    (put slot content).entry place =
      if place = slot.place then some (.file content) else s.entry place :=
  lookup_entriesWith slot content place

@[simp] theorem entry_put_self (slot : s.Slot) (content : ByteArray) :
    (put slot content).entry slot.place = some (.file content) := by simp [entry_put]

theorem entry_put_of_ne (h : place ≠ slot.place) : (put slot content).entry place = s.entry place := by
  simp [entry_put, h]

/-- A folder, as one of the system with a file. -/
def keep (slot : s.Slot) (content : ByteArray) (dir : s.Dir) : (put slot content).Dir :=
  ⟨dir.1, lookup_entriesWith_of_folder slot content dir.2⟩

theorem above_keep (slot : s.Slot) (content : ByteArray) (dir : s.Dir) :
    (put slot content).above (keep slot content dir) = keep slot content (s.above dir) := by
  obtain ⟨_ | ⟨name, place⟩, h⟩ := dir <;> rfl

theorem dirAt_eq_ok : s.dirAt place = .ok dir ↔ dir.1 = place := by
  unfold dirAt
  split
  · rename_i h
    rw [Except.ok.injEq, Subtype.ext_iff]
    exact eq_comm
  · rename_i h
    simp only [reduceCtorEq, false_iff]
    rintro rfl
    have := dir.2
    grind
  · rename_i h
    simp only [reduceCtorEq, false_iff]
    rintro rfl
    have := dir.2
    grind

/-- A walk leads to the same folder as before. -/
theorem walk_keep {steps : List (List Char)} (h : s.walk dir steps = .ok dir') :
    (put slot content).walk (keep slot content dir) steps = .ok (keep slot content dir') := by
  induction steps generalizing dir with
  | nil =>
    simp only [walk, Except.ok.injEq] at h
    rw [walk, h]
  | cons step steps ih =>
    unfold walk at h ⊢
    split at h
    · rename_i hstay
      rw [if_pos hstay]
      exact ih h
    rename_i hstay
    rw [if_neg hstay]
    split at h
    · rename_i hup
      rw [if_pos hup, above_keep]
      exact ih h
    · rename_i hup
      obtain ⟨name, hname, h⟩ := bind_eq_ok.1 h
      obtain ⟨next, hnext, h⟩ := bind_eq_ok.1 h
      have hplace : next.1 = name :: dir.1 := dirAt_eq_ok.1 hnext
      have hkept : (put slot content).dirAt (name :: dir.1) = .ok (keep slot content next) :=
        dirAt_eq_ok.2 hplace
      rw [if_neg hup]
      exact bind_eq_ok.2 ⟨name, hname, bind_eq_ok.2 ⟨_, hkept, ih h⟩⟩

/-- A path starts in the same folder as before. -/
theorem route_keep {steps : List (List Char)} (h : s.route path = .ok (dir, steps)) :
    (put slot content).route path = .ok (keep slot content dir, steps) := by
  unfold route at h ⊢
  split at h
  · contradiction
  rename_i hempty
  rw [if_neg hempty]
  split at h
  · contradiction
  rename_i hlong
  rw [if_neg hlong]
  simp only [Except.ok.injEq, Prod.mk.injEq] at h ⊢
  obtain ⟨rfl, rfl⟩ := h
  refine ⟨?_, rfl⟩
  split <;> rfl

/-! ## The path of a file -/

theorem targetAt_eq_file (h : s.targetAt dir name = .ok (.file slot)) :
    slot.dir = dir ∧ slot.name = name := by
  unfold targetAt at h
  split at h <;> cases h <;> exact ⟨rfl, rfl⟩

/-- The last step of a path that does not end with a slash. -/
theorem eq_concat_of_dropWhile {steps earlier : List (List Char)} {last : List Char}
    (h : steps.reverse.dropWhile (· = []) = last :: earlier) (hl : steps.getLast? ≠ some []) :
    steps = earlier.reverse ++ [last] ∧ last ≠ [] := by
  rw [List.getLast?_eq_head?_reverse] at hl
  cases hr : steps.reverse with
  | nil => simp [hr] at h
  | cons x xs =>
    simp only [hr, List.head?_cons, ne_eq, Option.some.injEq] at hl
    simp only [hr, List.dropWhile_cons, hl, decide_false, Bool.false_eq_true, if_false,
      List.cons.injEq] at h
    obtain ⟨rfl, rfl⟩ := h
    exact ⟨by rw [← List.reverse_cons, ← hr, List.reverse_reverse], hl⟩

/-- The path of a file is a walk to a folder and a name there. -/
theorem target_eq_file (h : s.target path = .ok (.file slot)) : ∃ start steps last,
    s.route path = .ok (start, steps ++ [last]) ∧ s.walk start steps = .ok slot.dir ∧
      ¬ (last = [] ∨ last = stay ∨ last = up) ∧ nameOf last = .ok slot.name := by
  obtain ⟨⟨start, steps⟩, hroute, h⟩ := bind_eq_ok.1 h
  dsimp only at h
  split at h
  · contradiction
  rename_i last earlier hlast
  obtain ⟨dir, hwalk, h⟩ := bind_eq_ok.1 h
  split at h
  · contradiction
  rename_i hplain
  simp only [not_or] at hplain
  obtain ⟨hstay, hup, hslash⟩ := hplain
  obtain ⟨name, hname, h⟩ := bind_eq_ok.1 h
  obtain ⟨rfl, rfl⟩ := targetAt_eq_file h
  obtain ⟨hsteps, hne⟩ := eq_concat_of_dropWhile hlast hslash
  exact ⟨start, earlier.reverse, last, hsteps ▸ hroute, hwalk, by simp [hne, hstay, hup], hname⟩

/-! ## Reading -/

theorem decode_toUTF8 (text : String) : decode text.toUTF8 = .ok text := by
  simp [decode, String.fromUTF8?, String.fromUTF8, text.isValidUTF8]

/-- A file that holds a text is read, unless something else keeps it from that. -/
theorem read_of_find (h : s.find path = .ok (place, .file text.toUTF8))
    (hreads : s.faults.reading place = none) : s.read path = .ok text := by
  refine bind_eq_ok.2 ⟨_, h, ?_⟩
  simp only [hreads, decode_toUTF8]

/-- Under the path to which a content was written, it is found. -/
theorem find_put (h : s.target path = .ok (.file slot)) :
    (put slot content).find path = .ok (slot.place, .file content) := by
  obtain ⟨start, steps, last, hroute, hwalk, hplain, hname⟩ := target_eq_file h
  have hentry : (put slot content).entry (slot.name :: slot.dir.1) = some (.file content) :=
    entry_put_self slot content
  have hwalk : (put slot content).walk (keep slot content start) (steps ++ [last]).dropLast =
      .ok (keep slot content slot.dir) := by
    rw [List.dropLast_concat]
    exact walk_keep hwalk
  refine bind_eq_ok.2 ⟨_, route_keep hroute, bind_eq_ok.2 ⟨_, hwalk, ?_⟩⟩
  simp only [List.getLast?_concat, Option.getD_some, if_neg hplain, hname, keep, bind, Except.bind,
    hentry]
  rfl

/-- Under the path to which a text was written, it is read. -/
theorem read_put (h : s.target path = .ok (.file slot))
    (hreads : s.faults.reading slot.place = none) :
    (put slot text.toUTF8).read path = .ok text := read_of_find (find_put h) hreads

/-! ## Writing -/

/-- A file that cannot be opened stays as it is. -/
theorem save_of_opening {problem : FileProblem} (h : s.faults.opening slot.place = some problem) :
    save slot content = (some problem, s) := by
  simp [save, h]

/-- When writing stops too early, what has got into the file is left there. -/
theorem save_of_stopping {count : Nat} {problem : FileProblem}
    (hopen : s.faults.opening slot.place = none)
    (hstop : s.faults.stopping slot.place content = some (count, problem)) :
    save slot content = (some problem, put slot (content.extract 0 count)) := by
  simp [save, hopen, hstop]

theorem save_of_none (hopen : s.faults.opening slot.place = none)
    (hstop : s.faults.stopping slot.place content = none) :
    save slot content = (none, put slot content) := by
  simp [save, hopen, hstop]

/-- A file can be written to a path: the path leads to its place, it can be opened, and no content
stops before its end. -/
structure Takes (s : FileSystem) (path : String) (slot : s.Slot) : Prop where
  leads : s.target path = .ok (.file slot)
  opens : s.faults.opening slot.place = none
  finishes : ∀ content, s.faults.stopping slot.place content = none

/-- What is written to any file gets there as a whole. -/
def FinishesWrites (s : FileSystem) : Prop :=
  ∀ place content, s.faults.stopping place content = none

theorem Takes.save (h : s.Takes path slot) (content : ByteArray) :
    save slot content = (none, put slot content) := save_of_none h.opens (h.finishes content)

/-! ## Changes -/

theorem entry_of_mem {e : Entry} (hnodup : (s.entries.map Prod.fst).Nodup)
    (h : (place, e) ∈ s.entries) : s.entry place = some e := by
  obtain ⟨before, after, hentries⟩ := List.append_of_mem h
  refine List.lookup_eq_some_iff.2 ⟨before, after, hentries, fun p hp => ?_⟩
  rw [hentries, List.map_append, List.map_cons, List.nodup_append] at hnodup
  have hne : p.1 ≠ place := hnodup.2.2 _ (List.mem_map_of_mem hp) _ List.mem_cons_self
  simpa using hne.symm

theorem changes_eq_nil (hnodup : (s.entries.map Prod.fst).Nodup) :
    s.changes s = [] := by
  refine List.filterMap_eq_nil_iff.2 fun p hp => ?_
  obtain ⟨_ | ⟨name, dir⟩, e⟩ := p
  · rfl
  cases e with
  | file content => simp [holds, entry_of_mem hnodup hp]
  | _ => rfl

/-- The only change is the file that is written, if it is one of the working folder and did not have
its content before. -/
theorem changes_put (hnodup : (s.entries.map Prod.fst).Nodup) (text : String) :
    s.changes (put slot text.toUTF8) =
      if slot.dir.1 = s.working ∧ !s.holds slot.place text.toUTF8 then [(slot.name, text)]
      else [] := by
  have hrest := changes_eq_nil hnodup
  have htext : String.fromUTF8? text.toUTF8 = some text := by
    simp [String.fromUTF8?, String.fromUTF8, text.isValidUTF8]
  have hentries : (put slot text.toUTF8).entries =
      (slot.name :: slot.dir.1, .file text.toUTF8) :: s.entries := rfl
  rw [changes] at hrest ⊢
  rw [hentries, List.filterMap_cons, hrest, Slot.place]
  dsimp only
  rw [htext]
  by_cases hchange : slot.dir.1 = s.working ∧ (!s.holds (slot.name :: slot.dir.1) text.toUTF8) = true
  · rw [if_pos hchange, if_pos hchange]
    rfl
  · rw [if_neg hchange, if_neg hchange]

/-- In a system that has texts under different names, no place has two entries. -/
theorem nodup_places_ofFiles {files : List (String × String)} (h : (files.map Prod.fst).Nodup) :
    ((ofFiles files).entries.map Prod.fst).Nodup := by
  have hdefault : (defaultEntries.map Prod.fst).Nodup ∧
      ∀ place ∈ defaultEntries.map Prod.fst, place.length ≤ 2 := by decide +kernel
  have hplaces : (ofFiles files).entries.map Prod.fst =
      defaultEntries.map Prod.fst ++ (files.map Prod.fst).map (· :: defaultWorking) := by
    simp [ofFiles, Function.comp_def]
  have hfiles : ((files.map Prod.fst).map (· :: defaultWorking)).Nodup :=
    List.Pairwise.map _ (fun a b hab heq => hab (List.cons.inj heq).1) h
  rw [hplaces, List.nodup_append]
  refine ⟨hdefault.1, hfiles, ?_⟩
  rintro place hplace _ hfile rfl
  obtain ⟨name, -, rfl⟩ := List.mem_map.1 hfile
  exact absurd (hdefault.2 _ hplace) (by simp [defaultWorking])

end CouplingMap.FileSystem
