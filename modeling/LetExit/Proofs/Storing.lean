import Mathlib.Data.List.Basic
import LetExit.World

/-!
# Files that are written

Writing a name changes the one place that the name stands for, and the name
stands for that place afterwards, since the directories on the way to it are
as they were. Storing a file writes it only if it does not hold the wanted
contents yet. So whether or not it was written, a file that was stored holds
the contents, and a file that could not be stored has not been touched.
-/

set_option autoImplicit false

namespace LetExit

theorem Bytes.getLast?_of_split {separator : UInt8} {bs : Bytes}
    (h : (split separator bs).getLast? = some []) : bs = [] ∨ bs.getLast? = some separator := by
  induction bs with
  | nil => exact .inl rfl
  | cons b rest ih =>
    right
    cases hrest : split separator rest with
    | nil => exact absurd hrest (split_ne_nil separator rest)
    | cons field fields =>
      rw [hrest] at ih
      rw [split, hrest] at h
      by_cases hb : b = separator
      · simp only [hb, if_true, List.getLast?_cons_cons] at h
        rcases ih h with rfl | hlast
        · rw [hb]; rfl
        · rw [List.getLast?_cons, hlast]; rfl
      · simp only [hb, if_false] at h
        cases fields with
        | nil => cases h
        | cons next fields =>
          rw [List.getLast?_cons_cons] at h ih
          rcases ih h with rfl | hlast
          · cases hrest
          · rw [List.getLast?_cons, hlast]; rfl

namespace Files

variable {fs : Files} {name data : Bytes}

theorem walk_append (place : Place) (way rest : List Bytes) :
    fs.walk place (way ++ rest) = (fs.walk place way).bind fun p => fs.walk p rest := by
  induction way generalizing place with
  | nil => rfl
  | cons element way ih =>
    rw [List.cons_append, walk, walk]
    cases fs.at? place with
    | none => rfl
    | some entry =>
      cases entry with
      | file data => rfl
      | directory =>
        dsimp only
        split_ifs
        · exact ih _
        · exact ih _
        · rfl
        · exact ih _

theorem walk_append_eq_ok_iff {place goal : Place} {way rest : List Bytes} :
    fs.walk place (way ++ rest) = .ok goal ↔
      ∃ p, fs.walk place way = .ok p ∧ fs.walk p rest = .ok goal := by
  rw [walk_append]
  cases fs.walk place way <;> simp [Except.bind]

theorem at?_of_walk {place goal : Place} {element : Bytes} {rest : List Bytes}
    (h : fs.walk place (element :: rest) = .ok goal) : fs.at? place = some .directory := by
  rw [walk] at h
  cases hplace : fs.at? place with
  | none => rw [hplace] at h; cases h
  | some entry =>
    rw [hplace] at h
    cases entry with
    | file data => cases h
    | directory => rfl

theorem walk_put {place target goal : Place} {way : List Bytes}
    (htarget : fs.at? target ≠ some .directory) (h : fs.walk place way = .ok goal) :
    (fs.put target (.file data)).walk place way = .ok goal := by
  induction way generalizing place with
  | nil => exact h
  | cons element way ih =>
    have hplace := at?_of_walk h
    have hne : place ≠ target := fun e => htarget (e ▸ hplace)
    rw [walk, hplace] at h
    rw [walk, at?_put_of_ne fs _ hne, hplace]
    dsimp only at h ⊢
    split_ifs at h ⊢
    · exact ih h
    · exact ih h
    · exact ih h

theorem split_of_reversedElements {last : Bytes} {above : List Bytes} (hne : name ≠ [])
    (hslash : name.getLast? ≠ some Bytes.slash) (h : reversedElements name = last :: above) :
    Bytes.split Bytes.slash name = above.reverse ++ [last] ∧ last ≠ [] := by
  rw [reversedElements] at h
  cases hreverse : (Bytes.split Bytes.slash name).reverse with
  | nil => exact absurd (List.reverse_eq_nil_iff.1 hreverse) (Bytes.split_ne_nil _ _)
  | cons field fields =>
    have hsplit : Bytes.split Bytes.slash name = fields.reverse ++ [field] := by
      rw [← List.reverse_cons, ← hreverse, List.reverse_reverse]
    -- no field is dropped, since the text does not end with a separator
    have hfield : field ≠ [] := by
      rintro rfl
      rcases Bytes.getLast?_of_split (by rw [hsplit, List.getLast?_concat]) with he | he
      · exact hne he
      · exact hslash he
    rw [hreverse, List.dropWhile_cons_of_neg (by simpa using hfield)] at h
    cases h
    exact ⟨hsplit, hfield⟩

theorem creatable_eq_ok {target : Place} (h : fs.creatable name = .ok target) :
    nameFault? name = none ∧ ∃ last above place, reversedElements name = last :: above ∧
      fs.walkAbove name above = .ok place ∧
      ¬(last = Path.here ∨ last = Path.parent ∨ name.getLast? = some Bytes.slash) ∧
      ¬maxElement < last.length ∧ target = place ++ [last] := by
  unfold creatable at h
  split at h
  · cases h
  · rename_i hname
    split at h
    · cases h
    · rename_i last above helements
      split at h
      · cases h
      · rename_i place hwalk
        split_ifs at h with hspecial hlong
        cases h
        exact ⟨hname, last, above, place, helements, hwalk, hspecial, hlong, rfl⟩

theorem resolve_of_creatable {target : Place} (h : fs.creatable name = .ok target) :
    fs.resolve name = .ok target ∧ target ≠ [] := by
  obtain ⟨hname, last, above, place, helements, hwalk, hspecial, hlong, rfl⟩ := creatable_eq_ok h
  simp only [not_or] at hspecial
  obtain ⟨hhere, hparent, hslash⟩ := hspecial
  have hne : name ≠ [] := by
    rintro rfl
    cases hname
  obtain ⟨hsplit, hlast⟩ := split_of_reversedElements hne hslash helements
  -- the elements above the last lead to a directory, from which the last one leads on
  obtain ⟨goal, hway, hend⟩ := walk_append_eq_ok_iff.1 hwalk
  have hdirectory := at?_of_walk hend
  have hgoal : goal = place := by simpa [walk, hdirectory] using hend
  subst hgoal
  refine ⟨?_, by simp⟩
  rw [resolve, hname]
  dsimp only
  rw [hsplit, walk_append_eq_ok_iff]
  refine ⟨goal, hway, ?_⟩
  simp [walk, hdirectory, hlast, hhere, hparent, hlong]

/-- The tree `after` is the tree `before` with the data in the file that the name stands for. -/
structure Stores (before : Files) (name data : Bytes) (after : Files) (place : Place) : Prop where
  named : before.resolve name = .ok place
  stillNamed : after.resolve name = .ok place
  holds : after.at? place = some (.file data)
  others : ∀ other, other ≠ place → after.at? other = before.at? other
  working : after.working = before.working

variable {after : Files}

theorem Stores.read {place : Place} (h : fs.Stores name data after place) :
    after.read name = .ok data := by
  rw [Files.read, h.stillNamed]
  dsimp only
  rw [h.holds]

theorem stores_of_read (h : fs.read name = .ok data) : ∃ place, fs.Stores name data fs place := by
  unfold Files.read at h
  split at h
  · cases h
  · rename_i place hplace
    split at h
    · cases h
    · cases h
    · rename_i data' hdata
      cases h
      exact ⟨place, hplace, hplace, hdata, fun _ _ => rfl, rfl⟩

theorem stores_of_write (h : fs.write name data = .ok after) :
    ∃ place, fs.Stores name data after place := by
  unfold Files.write at h
  split at h
  · cases h
  · rename_i place hplace
    obtain ⟨hresolve, hne⟩ := resolve_of_creatable hplace
    have hput : fs.at? place ≠ some .directory ∧ after = fs.put place (.file data) := by
      split at h
      · cases h
      · rename_i hnot
        cases h
        exact ⟨hnot, rfl⟩
    obtain ⟨hnot, rfl⟩ := hput
    refine ⟨place, hresolve, ?_, at?_put_self fs place _ hne,
      fun other ho => at?_put_of_ne fs _ ho, rfl⟩
    rw [resolve] at hresolve ⊢
    split at hresolve
    · cases hresolve
    · exact walk_put hnot hresolve

/-- Why data cannot be stored: the name cannot be read for another reason than that there is no
such file, or the data is not there yet and cannot be written. -/
def StoreFails (fs : Files) (name data : Bytes) : Prop :=
  (∃ e, fs.read name = .error e ∧ e.fault ≠ .missing) ∨
    fs.read name ≠ .ok data ∧ ∃ e, fs.write name data = .error e

end Files

namespace World

variable {w : World} {name data : Bytes}

theorem host_overwrite_ok {files : Files} (h : w.files.write name data = .ok files) :
    (host.overwrite name data).run w = (⟨true, none⟩, { w with files := files }) := by
  simp only [Host.overwrite, StateT.run_bind, host_write_ok h]
  rfl

theorem host_overwrite_error {e : FileError} (h : w.files.write name data = .error e) :
    (host.overwrite name data).run w = (⟨false, some (.wrap (utf8 "write") e.toError)⟩, w) := by
  simp only [Host.overwrite, StateT.run_bind, host_write_error h]
  rfl

theorem host_store_run (w : World) (name data : Bytes) :
    (host.store name data).run w =
      match w.files.read name with
      | .ok old => if old = data then (⟨false, none⟩, w) else (host.overwrite name data).run w
      | .error e =>
        if e.fault = .missing then (host.overwrite name data).run w
        else (⟨false, some (.wrap (utf8 "read old") e.toError)⟩, w) := by
  rw [Host.store, StateT.run_bind, host_read]
  cases w.files.read name with
  | ok old => exact apply_ite (fun step => StateT.run step w) _ _ _
  | error e => exact apply_ite (fun step => StateT.run step w) _ _ _

/-- What storing a file can do: fail and change nothing, find the data in place, or write it. -/
theorem host_store_cases (w : World) (name data : Bytes) :
    (w.files.StoreFails name data ∧ ∃ e, (host.store name data).run w = (⟨false, some e⟩, w)) ∨
    ¬w.files.StoreFails name data ∧
      ((w.files.read name = .ok data ∧ (host.store name data).run w = (⟨false, none⟩, w)) ∨
      ∃ files, w.files.read name ≠ .ok data ∧ w.files.write name data = .ok files ∧
        (host.store name data).run w = (⟨true, none⟩, { w with files := files })) := by
  rw [host_store_run, Files.StoreFails]
  cases hread : w.files.read name with
  | ok old =>
    by_cases hold : old = data
    · simp [hold]
    · cases hwrite : w.files.write name data with
      | ok files => simp [hold, host_overwrite_ok hwrite]
      | error e =>
        exact .inl ⟨.inr ⟨by simpa using hold, e, rfl⟩, _,
          (if_neg hold).trans (host_overwrite_error hwrite)⟩
  | error e =>
    by_cases hmissing : e.fault = .missing
    · cases hwrite : w.files.write name data with
      | ok files => simp [hmissing, host_overwrite_ok hwrite]
      | error e =>
        exact .inl ⟨.inr ⟨by simp, e, rfl⟩, _,
          (if_pos hmissing).trans (host_overwrite_error hwrite)⟩
    · exact .inl ⟨.inl ⟨e, rfl, hmissing⟩, _, if_neg hmissing⟩

theorem host_store_error {w' : World} {written : Bool} {e : Error}
    (h : (host.store name data).run w = (⟨written, some e⟩, w')) :
    w.files.StoreFails name data ∧ w' = w := by
  rcases host_store_cases w name data with
    ⟨hfails, e, hrun⟩ | ⟨-, ⟨-, hrun⟩ | ⟨files, -, -, hrun⟩⟩
  all_goals rw [hrun] at h; cases h
  exact ⟨hfails, rfl⟩

theorem host_store_ok {w' : World} {written : Bool}
    (h : (host.store name data).run w = (⟨written, none⟩, w')) :
    ¬w.files.StoreFails name data ∧ w'.tools = w.tools ∧
      ∃ place, w.files.Stores name data w'.files place := by
  rcases host_store_cases w name data with
    ⟨-, e, hrun⟩ | ⟨hstores, ⟨hread, hrun⟩ | ⟨files, -, hwrite, hrun⟩⟩
  all_goals rw [hrun] at h; cases h
  · exact ⟨hstores, rfl, Files.stores_of_read hread⟩
  · exact ⟨hstores, rfl, Files.stores_of_write hwrite⟩

end World

end LetExit
