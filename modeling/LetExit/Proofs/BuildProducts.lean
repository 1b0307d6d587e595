import LetExit.Proofs.CleanPaths
import LetExit.Assembly.Target

/-!
# Products beside the source

The object file and the executable are named after the assembly file in one of
three ways. In each of them only the part of the path behind its last slash
changes, so both stand in the directory of the file. They differ from each
other, the executable never takes the place of the file, and the object file
does so only if the file already is called like an object file.
-/

set_option autoImplicit false

namespace LetExit

open Bytes LetExit.Path

/-- How the products of the assembly file at the clean path `p` are named: `out` if its name is
nothing but an extension, else after the whole path or after the path without the extension. -/
inductive Products.Named (p : Bytes) : Products → Prop where
  | out {s : Bytes} (hext : extension p ≠ []) (hname : base p = extension p)
      (hs : directory s = directory p) (hout : lastElement s = utf8 "out") :
      Named p ⟨s ++ utf8 ".o", s⟩
  | whole (hext : extension p = []) : Named p ⟨p ++ utf8 ".o", p ++ utf8 ".out"⟩
  | cut {name : Bytes} (hext : extension p ≠ []) (hne : name ≠ [])
      (hname : base p = name ++ extension p) : Named p ⟨stem p ++ utf8 ".o", stem p⟩

theorem isKept_out {rooted : Bool} {ks : List Bytes} (h : IsKept rooted ks) :
    IsKept rooted (utf8 "out" :: ks) :=
  isKept_cons_iff.2 ⟨by decide, fun hparent => absurd hparent (by decide), h⟩

theorem base_eq_of_extension {p : Bytes} (h : extension p ≠ []) : base p = lastElement p := by
  apply base_eq_lastElement
  intro hnil
  have hsuffix := extension_isSuffix p
  rw [hnil, List.suffix_nil] at hsuffix
  exact h hsuffix

theorem Products.named (path : Bytes) : Named (clean path) (ofPath path) := by
  rw [ofPath]
  generalize clean path = p
  by_cases hname : base p = extension p
  · simp only [if_pos hname]
    have hext : extension p ≠ [] := fun hnil => base_ne_nil p (hname.trans hnil)
    have hkept := isKept_out (isKept_kept (beforeLast p))
    have hjoin : Path.join [directory p, utf8 "out"] = _ := join_clean hkept
    rw [hjoin]
    apply Named.out hext hname
    · rw [directory_spell hkept, directory, clean_eq_spell]
    · exact lastElement_spell hkept
  · simp only [if_neg hname]
    by_cases hext : extension p = []
    · simp only [if_pos hext]
      exact .whole hext
    · simp only [if_neg hext]
      obtain ⟨name, hsuffix⟩ := extension_isSuffix p
      have hbase : base p = name ++ extension p := (base_eq_of_extension hext).trans hsuffix.symm
      have hne : name ≠ [] := by
        rintro rfl
        exact hname hbase
      exact .cut hext hne hbase

namespace Products.Named

variable {p : Bytes} {products : Products}

theorem directory_object (h : Named p products) : directory products.object = directory p := by
  cases h with
  | out hext hname hs hout => rw [directory_append _ (by decide), hs]
  | whole hext => exact directory_append _ (by decide)
  | cut hext hne hname => rw [directory_append _ (by decide), directory_stem]

theorem directory_executable (h : Named p products) :
    directory products.executable = directory p := by
  cases h with
  | out hext hname hs hout => exact hs
  | whole hext => exact directory_append _ (by decide)
  | cut hext hne hname => exact directory_stem p

theorem object_ne_executable (h : Named p products) : products.object ≠ products.executable := by
  cases h with
  | out hext hname hs hout => simp [utf8]
  | whole hext =>
    intro heq
    exact absurd (List.append_cancel_left heq) (by decide)
  | cut hext hne hname => simp [utf8]

theorem extension_out {s : Bytes} (hout : lastElement s = utf8 "out") :
    extension s = [] ∧ extension (s ++ utf8 ".o") = utf8 ".o" := by
  have hobject : lastElement (s ++ utf8 ".o") = utf8 "out.o" := by
    rw [lastElement_append _ (by decide), hout]
    rfl
  constructor
  · rw [extension, hout]
    decide
  · rw [extension, hobject]
    decide

theorem executable_ne (h : Named p products) : products.executable ≠ p := by
  cases h with
  | out hext hname hs hout =>
    rintro rfl
    exact hext (extension_out hout).1
  | whole hext => simp [utf8]
  | cut hext hne hname =>
    intro heq
    have happend := stem_append_extension p
    rw [show stem p = p from heq] at happend
    simp [hext] at happend

theorem object_eq_iff (h : Named p products) :
    products.object = p ↔ extension p = utf8 ".o" ∧ (utf8 ".o").length < (base p).length := by
  cases h with
  | @out s hext hname hs hout =>
    rw [hname]
    constructor
    · -- the file would be called `out.o`, which is more than an extension
      rintro rfl
      rw [base_eq_of_extension hext, lastElement_append _ (by decide), hout,
        (extension_out hout).2] at hname
      exact absurd hname (by decide)
    · rintro ⟨heq, hlt⟩
      rw [heq] at hlt
      exact absurd hlt (Nat.lt_irrefl _)
  | whole hext =>
    rw [hext]
    simp [utf8]
  | @cut name hext hne hname =>
    have hlength : (extension p).length < (base p).length := by
      have := List.length_pos_iff.2 hne
      rw [hname, List.length_append]
      omega
    constructor
    · intro heq
      have hsame := heq.trans (stem_append_extension p).symm
      have hext := (List.append_cancel_left hsame).symm
      exact ⟨hext, hext ▸ hlength⟩
    · rintro ⟨heq, -⟩
      rw [← heq]
      exact stem_append_extension p

end Products.Named

theorem Products.newline_not_mem_ofPath {path : Bytes} (h : newline ∉ path) :
    newline ∉ (ofPath path).object ∧ newline ∉ (ofPath path).executable := by
  have hb : newline ∉ utf8 "./" := by decide
  have hclean : newline ∉ clean path := not_mem_clean hb h
  have hstem : newline ∉ stem (clean path) := fun hmem => hclean (List.mem_of_mem_take hmem)
  have hjoin : newline ∉ Path.join [directory (clean path), utf8 "out"] := by
    apply not_mem_join hb
    simp only [List.forall_mem_cons]
    exact ⟨not_mem_directory hb hclean, by decide, by simp⟩
  have happend : ∀ {name : Bytes} (ending : Bytes), newline ∉ name → newline ∉ ending →
      newline ∉ name ++ ending := by
    intro name ending hname hending
    rw [List.mem_append, not_or]
    exact ⟨hname, hending⟩
  rw [ofPath]
  split_ifs
  · exact ⟨happend _ hjoin (by decide), hjoin⟩
  · exact ⟨happend _ hclean (by decide), happend _ hclean (by decide)⟩
  · exact ⟨happend _ hstem (by decide), hstem⟩

/-- Whatever the path, both products stand in the directory of the file and under two names. The
executable never has the path of the file, and the object file has it exactly if the extension of
the file is `.o` and not its whole name. -/
theorem products_stand_beside_source (path : Bytes) :
    ∃ p obj exe, p = clean path ∧ Products.ofPath path = ⟨obj, exe⟩ ∧
      directory obj = directory p ∧ directory exe = directory p ∧ obj ≠ exe ∧ exe ≠ p ∧
      (obj = p ↔ extension p = utf8 ".o" ∧ (utf8 ".o").length < (base p).length) := by
  have h := Products.named path
  exact ⟨_, _, _, rfl, rfl, h.directory_object, h.directory_executable, h.object_ne_executable,
    h.executable_ne, h.object_eq_iff⟩

end LetExit
