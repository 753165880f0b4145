import HackAssembler.Files.Store

/-! # File systems

A file system is read and written by paths. Every path leads to a place, where something may stand
or not. A write that fails gives no file system back, so that the one before it is the one that is
still there. -/
namespace HackAssembler

class FileSystem (F : Type) where
  Place : Type
  place (files : F) (path : String) : Except FileFault Place
  lookup (files : F) (place : Place) : Option Entry
  read (files : F) (path : String) : Except FileFault String
  write (files : F) (path text : String) : Except FileFault F
  /-- A write changes what stands at one place. -/
  lookup_write {files after : F} {path text : String} (h : write files path text = .ok after) :
    ∃ target, place files path = .ok target ∧ lookup after target = some (.file text.toUTF8) ∧
      ∀ other, other ≠ target → lookup after other = lookup files other
  /-- A write changes nothing in where paths lead. -/
  place_write {files after : F} {path text : String} (h : write files path text = .ok after)
    (other : String) (target : Place) :
    place after other = .ok target ↔ place files other = .ok target

namespace Store

section Put
variable {store : Store} {target : List String} {bytes : ByteArray}

theorem entry?_put_of_ne {other : List String} (h : other ≠ target) (entry : Entry) :
    Store.entry? (store.put target entry) other = store.entry? other := by
  have hne : (other == target) = false := by simpa using h
  have hfilter (entries : List (List String × Entry)) :
      (entries.filter (·.1 != target)).lookup other = entries.lookup other := by
    induction entries with
    | nil => rfl
    | cons first entries ih =>
      obtain ⟨key, entry⟩ := first
      by_cases hkey : key = target
      · simp [hkey, List.lookup_cons, hne, ih]
      · simp [hkey, List.lookup_cons, ih]
  simp only [Store.entry?, put, List.lookup_cons, hne, hfilter]

variable (h : store.entry? target ≠ some .directory)
include h

theorem entry?_put_file :
    Store.entry? (store.put target (.file bytes)) target = some (.file bytes) := by
  have hroot : target.isEmpty = false := by
    rw [Bool.eq_false_iff]
    exact fun hroot => h (by simp [Store.entry?, hroot])
  simp [Store.entry?, put, hroot]

/-- No directory comes or goes where a file is put. -/
theorem directory_put_iff {other : List String} :
    Store.entry? (store.put target (.file bytes)) other = some .directory ↔
      store.entry? other = some .directory := by
  by_cases hother : other = target
  · subst hother
    simp [entry?_put_file h, h]
  · rw [entry?_put_of_ne hother]

end Put

theorem walk_cons_eq_ok_iff {store : Store} {start target : List String} {name : String}
    {names : List String} :
    store.walk start (name :: names) = .ok target ↔
      ∃ next, step start name = .ok next ∧ store.entry? next = some .directory ∧
        store.walk next names = .ok target := by
  rw [walk]
  cases step start name with
  | error fault => simp
  | ok next =>
    cases hentry : store.entry? next with
    | none => simp [hentry]
    | some entry => cases entry <;> simp [hentry]

/-- A path that can be followed leads from a directory by one last name. -/
theorem place_eq_ok_iff {store : Store} {path : String} {target : List String} :
    store.place path = .ok target ↔
      (path.toList.contains '\x00' = false ∧ path.isEmpty = false ∧
        path.utf8ByteSize ≤ maxPathBytes) ∧
      ∃ directory, store.walk (if path.startsWith "/" then [] else store.workingDirectory)
          (Path.parts path).dropLast = .ok directory ∧
        step directory ((Path.parts path).getLastD "") = .ok target := by
  simp only [place, bind, Except.bind, throw, throwThe, MonadExceptOf.throw]
  split
  · simp_all
  split
  · simp_all
  split
  · next hlong => simp [Nat.not_le_of_gt hlong]
  · cases store.walk _ _ <;> simp_all

section Write
variable {store after : Store} {path text : String}

theorem exists_of_write (h : store.write path text = .ok after) :
    ∃ target, store.place path = .ok target ∧ store.entry? target ≠ some .directory ∧
      after = store.put target (.file text.toUTF8) := by
  simp only [write, bind, Except.bind] at h
  split at h
  · cases h
  · next target hplace =>
    split at h
    · cases h
    · next hentry =>
      cases h
      exact ⟨target, hplace, hentry, rfl⟩

variable {target : List String} {bytes : ByteArray}
  (h : store.entry? target ≠ some .directory)
include h

theorem walk_put_iff {start found : List String} {names : List String} :
    (store.put target (.file bytes)).walk start names = .ok found ↔
      store.walk start names = .ok found := by
  induction names generalizing start with
  | nil => rfl
  | cons name names ih =>
    rw [walk_cons_eq_ok_iff, walk_cons_eq_ok_iff]
    simp only [directory_put_iff h, ih]

/-- Where a file is put, all paths lead to the places that they led to. -/
theorem place_put_iff {found : List String} :
    (store.put target (.file bytes)).place path = .ok found ↔ store.place path = .ok found := by
  rw [place_eq_ok_iff, place_eq_ok_iff]
  simp only [walk_put_iff h]
  rfl

end Write

instance : FileSystem Store where
  Place := List String
  place := place
  lookup := Store.entry?
  read := read
  write := write
  lookup_write h := by
    obtain ⟨target, hplace, hentry, rfl⟩ := exists_of_write h
    exact ⟨target, hplace, entry?_put_file hentry, fun other hother => entry?_put_of_ne hother _⟩
  place_write h other found := by
    obtain ⟨target, -, hentry, rfl⟩ := exists_of_write h
    exact place_put_iff hentry

end Store

end HackAssembler
