import Mathlib.Data.List.Basic

/-!
# Files and the names that lead to them

A file system as a program that rewrites a file meets it: names lead to files, and two names may
lead to the same one. Opening with truncation empties whatever file the name leads to, an open
handle writes to its file and not to its name, and a rename moves the name. What a write spares
is therefore a matter of files and not of names (`contents_write`, `contents_openTruncate`).

The names themselves are lists of characters with an extension behind the last dot. Replacing
the extension gives back the same name when the extension was there already, and only then
(`withExtension_eq_self_iff`).
-/

set_option autoImplicit false

namespace EngineKit
namespace Lib

/-! ## Extensions -/

section Extension

variable {χ : Type} [DecidableEq χ]

/-- What stands before the last `dot` of a name, if it has one, and what stands behind it. -/
def rsplitOnce (dot : χ) : List χ → Option (List χ) × List χ
  | [] => (none, [])
  | c :: name =>
    match rsplitOnce dot name with
    | (some before, after) => (some (c :: before), after)
    | (none, after) => if c = dot then (some [], after) else (none, c :: after)

/-- A leading dot begins no extension. -/
def fileStem (dot : χ) (name : List χ) : List χ :=
  match rsplitOnce dot name with
  | (none, _) => name
  | (some [], _) => name
  | (some (c :: before), _) => c :: before

def extension (dot : χ) (name : List χ) : Option (List χ) :=
  match rsplitOnce dot name with
  | (none, _) => none
  | (some [], _) => none
  | (some (_ :: _), after) => some after

def withExtension (dot : χ) (name ext : List χ) : List χ := fileStem dot name ++ dot :: ext

theorem rsplitOnce_of_not_mem {dot : χ} {name : List χ} (h : dot ∉ name) :
    rsplitOnce dot name = (none, name) := by
  induction name with
  | nil => rfl
  | cons c name ih =>
    have hc : c ≠ dot := fun heq => h (heq ▸ List.mem_cons_self)
    rw [rsplitOnce, ih fun hmem => h (List.mem_cons_of_mem _ hmem)]
    simp [hc]

theorem rsplitOnce_append {dot : χ} {ext : List χ} (hext : dot ∉ ext) (stem : List χ) :
    rsplitOnce dot (stem ++ dot :: ext) = (some stem, ext) := by
  induction stem with
  | nil => simp [rsplitOnce, rsplitOnce_of_not_mem hext]
  | cons c stem ih => rw [List.cons_append, rsplitOnce, ih]

theorem eq_of_rsplitOnce {dot : χ} {name after : List χ} {before : Option (List χ)}
    (h : rsplitOnce dot name = (before, after)) :
    name = match before with
      | some before => before ++ dot :: after
      | none => after := by
  induction name generalizing before after with
  | nil =>
    cases h
    rfl
  | cons c name ih =>
    cases hs : rsplitOnce dot name with
    | mk before' after' =>
      rw [rsplitOnce, hs] at h
      have hname := ih hs
      cases before' with
      | some before' =>
        cases h
        simp [hname]
      | none =>
        by_cases hc : c = dot
        · simp only [if_pos hc] at h
          cases h
          simp [hname, hc]
        · simp only [if_neg hc] at h
          cases h
          simp [hname]

/-- **A replaced extension gives the same name when it was there already**, and only then. -/
theorem withExtension_eq_self_iff {dot : χ} {name ext : List χ} (hext : dot ∉ ext) :
    withExtension dot name ext = name ↔ extension dot name = some ext := by
  constructor
  · intro h
    have hsplit := rsplitOnce_append hext (fileStem dot name)
    rw [← withExtension, h] at hsplit
    cases hstem : fileStem dot name with
    | nil =>
      -- Only the empty name has an empty stem, and it has no room for an extension.
      have hname : name = [] := by
        rw [hstem] at hsplit
        rw [fileStem, hsplit] at hstem
        exact hstem
      rw [withExtension, hname] at h
      simp at h
    | cons c before =>
      rw [hstem] at hsplit
      rw [extension, hsplit]
  · intro h
    unfold extension at h
    rw [withExtension, fileStem]
    cases hs : rsplitOnce dot name with
    | mk before after =>
      rw [hs] at h
      cases before with
      | none => exact absurd h (by simp)
      | some before =>
        have hname := eq_of_rsplitOnce hs
        cases before with
        | nil => exact absurd h (by simp)
        | cons c before =>
          cases Option.some.inj h
          exact hname.symm

end Extension

/-! ## Files -/

/-- Files by number, and the file each name leads to. -/
structure FileSystem (π χ : Type) where
  files : List (List χ)
  entry : π → Option Nat
  entry_lt : ∀ {path i}, entry path = some i → i < files.length

namespace FileSystem

variable {π χ : Type}

/-- What is read under a name. -/
def contents (fs : FileSystem π χ) (path : π) : Option (List χ) :=
  match fs.entry path with
  | none => none
  | some i => fs.files[i]?

/-- A write through a handle, at the end of its file. -/
def write (fs : FileSystem π χ) (file : Nat) (bytes : List χ) : FileSystem π χ where
  files := fs.files.modify file (· ++ bytes)
  entry := fs.entry
  entry_lt h := by rw [List.length_modify]; exact fs.entry_lt h

variable [DecidableEq π]

/-- A new empty file under a name. -/
def create (fs : FileSystem π χ) (path : π) : FileSystem π χ where
  files := fs.files ++ [[]]
  entry := fun q => if q = path then some fs.files.length else fs.entry q
  entry_lt {q i} h := by
    rw [List.length_append, List.length_singleton]
    by_cases hq : q = path
    · rw [if_pos hq] at h
      cases Option.some.inj h
      exact Nat.lt_succ_self _
    · rw [if_neg hq] at h
      exact Nat.lt_succ_of_lt (fs.entry_lt h)

/-- Opening to append: the file the name leads to, a new one if it leads to none. -/
def openAppend (fs : FileSystem π χ) (path : π) : Nat × FileSystem π χ :=
  match fs.entry path with
  | some i => (i, fs)
  | none => (fs.files.length, fs.create path)

/-- Opening with truncation: as to append, and the file is empty afterwards. -/
def openTruncate (fs : FileSystem π χ) (path : π) : Nat × FileSystem π χ :=
  match fs.entry path with
  | some i =>
    (i, { files := fs.files.set i []
          entry := fs.entry
          entry_lt := fun h => by rw [List.length_set]; exact fs.entry_lt h })
  | none => (fs.files.length, fs.create path)

/-- The name leads nowhere any more; the file stays what it was. -/
def remove (fs : FileSystem π χ) (path : π) : FileSystem π χ where
  files := fs.files
  entry := fun q => if q = path then none else fs.entry q
  entry_lt {q i} h := by
    by_cases hq : q = path
    · rw [if_pos hq] at h; exact absurd h (by simp)
    · rw [if_neg hq] at h; exact fs.entry_lt h

/-- The name `target` leads where `source` led, and `source` nowhere. Two names of one file are
    left alone. -/
def rename (fs : FileSystem π χ) (source target : π) : FileSystem π χ :=
  if fs.entry source = fs.entry target then fs
  else
    { files := fs.files
      entry := fun q => if q = target then fs.entry source else (fs.remove source).entry q
      entry_lt := fun {q i} h => by
        by_cases hq : q = target
        · rw [if_pos hq] at h; exact fs.entry_lt h
        · rw [if_neg hq] at h; exact (fs.remove source).entry_lt h }

/-! ## What each operation spares -/

omit [DecidableEq π] in
@[simp] theorem write_nil (fs : FileSystem π χ) (file : Nat) : fs.write file [] = fs := by
  have hid : (fun xs : List χ => xs ++ []) = id := funext fun xs => List.append_nil xs
  cases fs
  simp only [write, hid, List.modify_id]

omit [DecidableEq π] in
@[simp] theorem write_write (fs : FileSystem π χ) (file : Nat) (bytes bytes' : List χ) :
    (fs.write file bytes).write file bytes' = fs.write file (bytes ++ bytes') := by
  simp [write, List.modify_modify_eq, Function.comp_def, List.append_assoc]

omit [DecidableEq π] in
/-- **A write reaches the names of its file**, and no other name. -/
theorem contents_write (fs : FileSystem π χ) (file : Nat) (bytes : List χ) (path : π) :
    (fs.write file bytes).contents path =
      if fs.entry path = some file then (fs.contents path).map (· ++ bytes)
      else fs.contents path := by
  unfold contents
  cases he : fs.entry path with
  | none => simp [write, he]
  | some i =>
    by_cases hi : i = file
    · simp [write, he, hi]
    · have hne : ¬ file = i := fun h => hi h.symm
      simp [write, he, hi, hne]

theorem entry_openTruncate_self (fs : FileSystem π χ) (path : π) :
    (fs.openTruncate path).2.entry path = some (fs.openTruncate path).1 := by
  unfold openTruncate
  cases he : fs.entry path with
  | none => simp [create]
  | some i => exact he

/-- The handle is a new file's, unless the name led somewhere. -/
theorem entry_openTruncate {fs : FileSystem π χ} {path q : π} {i : Nat}
    (hq : fs.entry q = some i) :
    (fs.openTruncate path).2.entry q = some i ∧
      ((fs.openTruncate path).1 = i ↔ fs.entry path = some i) := by
  unfold openTruncate
  cases he : fs.entry path with
  | some j => exact ⟨hq, by simp⟩
  | none =>
    have hlt := fs.entry_lt hq
    have hne : q ≠ path := fun h => by rw [h, he] at hq; exact absurd hq (by simp)
    refine ⟨?_, ?_⟩
    · simp only [create, if_neg hne]
      exact hq
    · constructor
      · intro h
        have hnew : fs.files.length = i := h
        omega
      · intro h
        exact absurd h (by simp)

/-- **Truncation empties the file under all its names**, and no other file. -/
theorem contents_openTruncate {fs : FileSystem π χ} {path q : π} {i : Nat}
    (hq : fs.entry q = some i) :
    (fs.openTruncate path).2.contents q =
      if fs.entry path = some i then some [] else fs.contents q := by
  have hlt := fs.entry_lt hq
  rw [contents, (entry_openTruncate hq).1, contents, hq]
  unfold openTruncate
  cases he : fs.entry path with
  | some j =>
    by_cases hj : j = i
    · simp [hj, hlt]
    · simp [hj]
  | none => simp [create, List.getElem?_append_left hlt]

theorem contents_openTruncate_self (fs : FileSystem π χ) (path : π) :
    (fs.openTruncate path).2.contents path = some [] := by
  unfold openTruncate
  cases he : fs.entry path with
  | none => simp [contents, create]
  | some i =>
    have hlt := fs.entry_lt he
    simp [contents, he, hlt]

@[simp] theorem contents_remove_self (fs : FileSystem π χ) (path : π) :
    (fs.remove path).contents path = none := by
  simp [contents, remove]

theorem contents_remove_of_ne (fs : FileSystem π χ) {path q : π} (h : q ≠ path) :
    (fs.remove path).contents q = fs.contents q := by
  simp [contents, remove, h]

/-- A rename takes the file along. -/
theorem contents_rename_target (fs : FileSystem π χ) (source target : π) :
    (fs.rename source target).contents target = fs.contents source := by
  unfold rename
  split
  · next h => rw [contents, contents, h]
  · simp [contents]

/-- Opening to append leaves what the name leads to as it is. -/
theorem contents_openAppend_self (fs : FileSystem π χ) (path : π) :
    (fs.openAppend path).2.contents path = some ((fs.contents path).getD []) := by
  unfold openAppend
  cases he : fs.entry path with
  | none => simp [contents, create, he]
  | some i =>
    have hlt := fs.entry_lt he
    simp [contents, he, hlt]

end FileSystem

end Lib
end EngineKit
