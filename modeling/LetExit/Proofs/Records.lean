import Mathlib.Data.List.Forall2
import LetExit.Proofs.AssemblyText
import LetExit.Proofs.WireReading

/-!
# The records of tokens and variables

A record tells all of a variable, and all of a token but its end. The kind of
a token is told by its name, which no two kinds share, and its text is left
out only if it is empty. So a log determines the sequence of what was logged,
as far as the records tell it.
-/

set_option autoImplicit false

namespace LetExit

theorem Bytes.eq_of_ofInt_eq {z z' : Int} (h : ofInt z = ofInt z') : z = z' := by
  have hread := congrArg toInt? h
  rw [toInt?_ofInt, toInt?_ofInt] at hread
  exact Option.some.inj hread

theorem Bytes.length_ofNat_le (n : Nat) : (ofNat n).length ≤ n + 1 := by
  induction n using Nat.strongRecOn with
  | ind n ih =>
    rw [ofNat]
    split
    · simp
    · have hdiv := ih (n / 10) (by omega)
      simp only [List.length_append, List.length_singleton]
      omega

theorem Bytes.length_ofInt_le (z : Int) : (ofInt z).length ≤ z.natAbs + 2 := by
  cases z with
  | ofNat n => exact Nat.le_succ_of_le (length_ofNat_le n)
  | negSucc n => exact Nat.succ_le_succ (length_ofNat_le (n + 1))

namespace Kind

def named : List Kind := [.semi, .intLit, .openParen, .closeParen, .ident, .exit, .letWord, .eq]

theorem named_or_other (k : Kind) : k ∈ named ∨ ∃ code unnamed, k = .other code unnamed := by
  cases k with
  | other code unnamed => exact .inr ⟨code, unnamed, rfl⟩
  | _ => exact .inl (by decide)

theorem eq_of_named : ∀ k ∈ named, ∀ k' ∈ named, k.name = k'.name → k = k' := by
  decide

theorem head?_name_of_named : ∀ k ∈ named, k.name.head? ≠ some 75 := by
  decide

theorem eq_of_name_eq {k k' : Kind} (h : k.name = k'.name) : k = k' := by
  rcases k.named_or_other with hk | ⟨code, _, rfl⟩
  · rcases k'.named_or_other with hk' | ⟨code', _, rfl⟩
    · exact eq_of_named k hk k' hk' h
    · exact absurd (congrArg List.head? h) (head?_name_of_named k hk)
  · rcases k'.named_or_other with hk' | ⟨code', _, rfl⟩
    · exact absurd (congrArg List.head? h.symm) (head?_name_of_named k' hk')
    · rw [name, name, List.append_assoc, List.append_assoc] at h
      have hcode := List.append_cancel_right (List.append_cancel_left h)
      cases Bytes.eq_of_ofInt_eq hcode
      rfl

theorem length_name_le (k : Kind) : k.name.length ≤ k.code.natAbs + 11 := by
  rcases k.named_or_other with hk | ⟨code, _, rfl⟩
  · have hnames : ∀ k ∈ named, k.name.length ≤ 11 := by decide
    exact Nat.le_trans (hnames k hk) (Nat.le_add_left 11 _)
  · have hopening : (utf8 "Kind(").length = 5 := by decide
    have hclosing : (utf8 ")").length = 1 := by decide
    have hcode := Bytes.length_ofInt_le code
    rw [name, List.length_append, List.length_append, hopening, hclosing, Kind.code]
    omega

end Kind

open Wire

structure Var.Bounded (v : Var) : Prop where
  name : v.name.length < 0x8000000000000000
  slot : IsInt64 v.slot
  pos : IsInt64 v.pos

/-- The tokens that a machine of 64 bits can hold. Their ends are not logged. -/
structure Token.Bounded (t : Token) : Prop where
  kind : IsInt64 t.kind.code
  text : t.text.length < 0x8000000000000000
  pos : IsInt64 t.pos

def Var.fields (v : Var) : List Field :=
  [(utf8 "name", .string v.name), (utf8 "slot", .int v.slot), (utf8 "pos", .int v.pos)]

def Token.fields (t : Token) : List Field :=
  [(utf8 "kind", .string t.kind.name)] ++
  (if t.text = [] then [] else [(utf8 "text", .string t.text)]) ++
  [(utf8 "pos", .int t.pos)]

theorem Token.fields_of_bare {t : Token} (h : t.text = []) :
    t.fields = [(utf8 "kind", .string t.kind.name), (utf8 "pos", .int t.pos)] := by
  rw [fields, if_pos h]
  rfl

theorem Token.fields_of_text {t : Token} (h : t.text ≠ []) :
    t.fields = [(utf8 "kind", .string t.kind.name), (utf8 "text", .string t.text),
      (utf8 "pos", .int t.pos)] := by
  rw [fields, if_neg h]
  rfl

/-- The announced number of pairs is that of the fields. -/
theorem Token.length_fields (t : Token) : t.fields.length = t.pairCount := by
  by_cases htext : t.text = []
  · rw [pairCount, if_pos htext, fields_of_bare htext]
    rfl
  · rw [pairCount, if_neg htext, fields_of_text htext]
    rfl

theorem Var.wire_eq_record (v : Var) : v.wire = record v.fields := by
  have hcount : v.fields.length = 3 := rfl
  rw [record, hcount]
  rfl

theorem Token.wire_eq_record (t : Token) : t.wire = record t.fields := by
  rw [wire, record, length_fields]
  by_cases htext : t.text = []
  · rw [if_pos htext, fields_of_bare htext]
    rfl
  · rw [if_neg htext, fields_of_text htext]
    rfl

theorem Var.Bounded.sized {v : Var} (h : v.Bounded) : Sized v.fields := by
  have hname : v.name.length < 0x10000000000000000 := Nat.lt_trans h.name (by decide)
  refine ⟨by simp [Var.fields], ?_⟩
  simp only [Var.fields, List.forall_mem_cons]
  exact ⟨fits_mk (by decide) hname, fits_mk (by decide) h.slot, fits_mk (by decide) h.pos, by simp⟩

theorem Token.Bounded.sized {t : Token} (h : t.Bounded) : Sized t.fields := by
  have hkind : t.kind.name.length < 0x10000000000000000 := by
    obtain ⟨hlow, hhigh⟩ := h.kind
    have hname := t.kind.length_name_le
    omega
  have htext : t.text.length < 0x10000000000000000 := Nat.lt_trans h.text (by decide)
  by_cases hbare : t.text = []
  · rw [Token.fields_of_bare hbare]
    refine ⟨by simp, ?_⟩
    simp only [List.forall_mem_cons]
    exact ⟨fits_mk (by decide) hkind, fits_mk (by decide) h.pos, by simp⟩
  · rw [Token.fields_of_text hbare]
    refine ⟨by simp, ?_⟩
    simp only [List.forall_mem_cons]
    exact ⟨fits_mk (by decide) hkind, fits_mk (by decide) htext, fits_mk (by decide) h.pos, by simp⟩

theorem Var.eq_of_fields_eq {v w : Var} (h : v.fields = w.fields) : v = w := by
  obtain ⟨name, slot, pos⟩ := v
  obtain ⟨name', slot', pos'⟩ := w
  simpa [fields] using h

def Token.LoggedAlike (t u : Token) : Prop := t.kind = u.kind ∧ t.text = u.text ∧ t.pos = u.pos

theorem Token.loggedAlike_of_fields_eq {t u : Token} (h : t.fields = u.fields) :
    t.LoggedAlike u := by
  -- records with and without a text have different numbers of fields
  by_cases ht : t.text = []
  · by_cases hu : u.text = []
    · rw [fields_of_bare ht, fields_of_bare hu] at h
      simp only [List.cons.injEq, Prod.mk.injEq, Value.string.injEq, Value.int.injEq, true_and,
        and_true] at h
      exact ⟨Kind.eq_of_name_eq h.1, ht.trans hu.symm, h.2⟩
    · rw [fields_of_bare ht, fields_of_text hu] at h
      exact absurd (congrArg List.length h) (by simp)
  · by_cases hu : u.text = []
    · rw [fields_of_text ht, fields_of_bare hu] at h
      exact absurd (congrArg List.length h) (by simp)
    · rw [fields_of_text ht, fields_of_text hu] at h
      simp only [List.cons.injEq, Prod.mk.injEq, Value.string.injEq, Value.int.injEq, true_and,
        and_true] at h
      exact ⟨Kind.eq_of_name_eq h.1, h.2⟩

theorem map_fields_eq {α : Type} {wire : α → Bytes} {fields : α → List Field} {P : α → Prop}
    (hwire : ∀ a, wire a = record (fields a)) (hsized : ∀ a, P a → Sized (fields a))
    {as bs : List α} (has : ∀ a ∈ as, P a) (hbs : ∀ b ∈ bs, P b)
    (h : as.flatMap wire = bs.flatMap wire) : as.map fields = bs.map fields := by
  apply eq_of_flatMap_record_eq
  · intro r hr
    obtain ⟨a, ha, rfl⟩ := List.mem_map.1 hr
    exact hsized a (has a ha)
  · intro r hr
    obtain ⟨b, hb, rfl⟩ := List.mem_map.1 hr
    exact hsized b (hbs b hb)
  · simpa only [List.flatMap_map, ← hwire] using h

/-- Logs of variables and of tokens can be read in one way only. -/
theorem logs_are_uniquely_decodable :
    (∀ vs ws : List Var, (∀ v ∈ vs, v.Bounded) → (∀ w ∈ ws, w.Bounded) →
      vs.flatMap Var.wire = ws.flatMap Var.wire → vs = ws) ∧
    (∀ ts us : List Token, (∀ t ∈ ts, t.Bounded) → (∀ u ∈ us, u.Bounded) →
      ts.flatMap Token.wire = us.flatMap Token.wire → List.Forall₂ Token.LoggedAlike ts us) ∧
    (∀ v : Var, v.Bounded → ∃ n body,
      tag? v.wire = some (.map, n, body) ∧ fields? n body = some (v.fields, [])) ∧
    (∀ t : Token, t.Bounded → ∃ n body,
      tag? t.wire = some (.map, n, body) ∧ fields? n body = some (t.fields, [])) := by
  refine ⟨fun vs ws hvs hws h => ?_, fun ts us hts hus h => ?_, fun v hv => ?_, fun t ht => ?_⟩
  · have hfields := map_fields_eq Var.wire_eq_record (fun _ => Var.Bounded.sized) hvs hws h
    exact List.map_injective_iff.2 (fun _ _ => Var.eq_of_fields_eq) hfields
  · have hfields := map_fields_eq Token.wire_eq_record (fun _ => Token.Bounded.sized) hts hus h
    have hall : List.Forall₂ Eq (ts.map Token.fields) (us.map Token.fields) := by
      rw [hfields, List.forall₂_eq_eq_eq]
    exact (List.forall₂_map_right_iff.1 (List.forall₂_map_left_iff.1 hall)).imp
      fun _ _ => Token.loggedAlike_of_fields_eq
  · exact Var.wire_eq_record v ▸ tag?_record hv.sized
  · exact Token.wire_eq_record t ▸ tag?_record ht.sized

/-- The two logs of tokens differ in the ends only, and the two variables in the slots, which are
the least and the greatest of 64 bits. -/
theorem ends_are_not_logged :
    List.flatMap Token.wire [⟨.ident, utf8 "a", 300, 301⟩,
        ⟨.other (-9) (by decide), [], -0x8000000000000000, 0⟩] =
      List.flatMap Token.wire [⟨.ident, utf8 "a", 300, 7⟩,
        ⟨.other (-9) (by decide), [], -0x8000000000000000, 5⟩] ∧
    List.Forall₂ Token.LoggedAlike [⟨.ident, utf8 "a", 300, 301⟩,
        ⟨.other (-9) (by decide), [], -0x8000000000000000, 0⟩]
      [⟨.ident, utf8 "a", 300, 7⟩, ⟨.other (-9) (by decide), [], -0x8000000000000000, 5⟩] ∧
    List.flatMap Var.wire [⟨utf8 "b", -0x8000000000000000, 24⟩] ≠
      List.flatMap Var.wire [⟨utf8 "b", 0x7fffffffffffffff, 24⟩] ∧
    (∃ n body, tag? (Var.wire ⟨utf8 "b", -0x8000000000000000, 24⟩) = some (.map, n, body) ∧
      fields? n body = some (Var.fields ⟨utf8 "b", -0x8000000000000000, 24⟩, [])) ∧
    (∃ n body, tag? (Token.wire ⟨.ident, utf8 "a", 300, 301⟩) = some (.map, n, body) ∧
      fields? n body = some (Token.fields ⟨.ident, utf8 "a", 300, 301⟩, [])) := by
  obtain ⟨hvars, htokens, hvar, htoken⟩ := logs_are_uniquely_decodable
  have hlow : Var.Bounded ⟨utf8 "b", -0x8000000000000000, 24⟩ := ⟨by decide, by decide, by decide⟩
  have hhigh : Var.Bounded ⟨utf8 "b", 0x7fffffffffffffff, 24⟩ := ⟨by decide, by decide, by decide⟩
  refine ⟨rfl, htokens _ _ ?_ ?_ rfl, fun h => ?_, hvar _ hlow,
    htoken _ ⟨by decide, by decide, by decide⟩⟩
  · simp only [List.forall_mem_cons]
    exact ⟨⟨by decide, by decide, by decide⟩, ⟨by decide, by decide, by decide⟩, by simp⟩
  · simp only [List.forall_mem_cons]
    exact ⟨⟨by decide, by decide, by decide⟩, ⟨by decide, by decide, by decide⟩, by simp⟩
  · exact absurd (hvars _ _ (by simpa using hlow) (by simpa using hhigh) h) (by decide)

end LetExit
