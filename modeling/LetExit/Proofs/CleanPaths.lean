import Mathlib.Data.List.TakeWhile
import Mathlib.Tactic.SplitIfs
import LetExit.Path

/-!
# Clean paths

A path is cut at its last slash into a directory and a name, and a name at its
last dot. Cleaning reads the elements of a path on a stack. What the stack can
hold is said once: elements with a name of their own, above as many steps
upwards as lead out of the start. Such a stack is left as it is when its
spelling is read again, so a clean path has the directory and the name that its
spelling shows.
-/

set_option autoImplicit false

namespace LetExit

namespace Bytes

theorem not_mem_of_mem_split {separator : UInt8} {bs field : Bytes}
    (h : field ∈ split separator bs) : separator ∉ field := by
  induction bs generalizing field with
  | nil => simp_all [split]
  | cons b bs ih =>
    rw [split] at h
    cases hrest : split separator bs with
    | nil => exact absurd hrest (split_ne_nil separator bs)
    | cons first fields =>
      have hfirst : separator ∉ first := ih (by simp [hrest])
      simp only [hrest] at h
      by_cases hb : b = separator
      · rw [if_pos hb] at h
        rcases List.mem_cons.1 h with rfl | h
        · exact List.not_mem_nil
        · exact ih (by rwa [hrest])
      · rw [if_neg hb] at h
        rcases List.mem_cons.1 h with rfl | h
        · simp [hfirst, Ne.symm hb]
        · exact ih (by simp [hrest, h])

theorem mem_join_of_mem (separator : Bytes) {b : UInt8} {fields : List Bytes} {field : Bytes}
    (h : field ∈ fields) (hb : b ∈ field) : b ∈ join separator fields := by
  induction fields with
  | nil => cases h
  | cons first fields ih =>
    cases fields with
    | nil =>
      rw [List.mem_singleton.1 h] at hb
      exact hb
    | cons second fields =>
      rw [join, List.mem_append]
      · rcases List.mem_cons.1 h with rfl | h
        · exact .inl (List.mem_append_left _ hb)
        · exact .inr (ih h)
      · simp

theorem mem_of_mem_split {separator b : UInt8} {bs field : Bytes}
    (h : field ∈ split separator bs) (hb : b ∈ field) : b ∈ bs := by
  rw [← join_split separator bs]
  exact mem_join_of_mem _ h hb

theorem mem_of_mem_join {separator : Bytes} {b : UInt8} {fields : List Bytes}
    (h : b ∈ join separator fields) : b ∈ separator ∨ ∃ field ∈ fields, b ∈ field := by
  induction fields with
  | nil => cases h
  | cons field fields ih =>
    cases fields with
    | nil => exact .inr ⟨field, .head _, h⟩
    | cons second fields =>
      rw [join, List.mem_append, List.mem_append] at h
      · rcases h with (h | h) | h
        · exact .inr ⟨field, .head _, h⟩
        · exact .inl h
        · rcases ih h with h | ⟨f, hf, h⟩
          · exact .inl h
          · exact .inr ⟨f, .tail _ hf, h⟩
      · simp

end Bytes

namespace Path

open Bytes

/-! Paths are cut at the last slash. -/

theorem beforeLast_append_lastElement (path : Bytes) :
    beforeLast path ++ lastElement path = path := by
  rw [beforeLast, lastElement, ← List.reverse_append, List.takeWhile_append_dropWhile,
    List.reverse_reverse]

theorem slash_not_mem_lastElement (path : Bytes) : slash ∉ lastElement path := by
  intro h
  have hslash := List.mem_takeWhile_imp (List.mem_reverse.1 h)
  simp at hslash

section Names

variable {name : Bytes} (path : Bytes) (h : slash ∉ name)
include h

theorem ne_slash_of_mem_reverse : ∀ b ∈ name.reverse, (b != slash) = true := by
  intro b hb
  rw [bne_iff_ne]
  rintro rfl
  exact h (List.mem_reverse.1 hb)

theorem lastElement_append : lastElement (path ++ name) = lastElement path ++ name := by
  rw [lastElement, List.reverse_append, List.takeWhile_append_of_pos (ne_slash_of_mem_reverse h),
    List.reverse_append, List.reverse_reverse]
  rfl

theorem beforeLast_append : beforeLast (path ++ name) = beforeLast path := by
  rw [beforeLast, List.reverse_append, List.dropWhile_append_of_pos (ne_slash_of_mem_reverse h)]
  rfl

theorem directory_append : directory (path ++ name) = directory path := by
  rw [directory, beforeLast_append path h, directory]

end Names

theorem beforeLast_slash (path : Bytes) : beforeLast (path ++ [slash]) = path ++ [slash] := by
  simp [beforeLast]

theorem lastElement_slash (path : Bytes) : lastElement (path ++ [slash]) = [] := by
  simp [lastElement]

theorem base_ne_nil (path : Bytes) : base path ≠ [] := by
  by_cases hpath : path = []
  · rw [base, if_pos hpath]
    decide
  · rw [base, if_neg hpath]
    cases hrest : path.reverse.dropWhile (· == slash) with
    | nil => simp
    | cons b rest =>
      -- what is left does not end with a slash, so its last element has a byte
      have hb := List.head?_dropWhile_not (· == slash) path.reverse
      simp only [hrest, List.head?_cons] at hb
      simp [lastElement, bne, hb]

theorem base_eq_lastElement {path : Bytes} (h : lastElement path ≠ []) :
    base path = lastElement path := by
  cases hreverse : path.reverse with
  | nil => simp [lastElement, hreverse] at h
  | cons b rest =>
    have hb : b ≠ slash := by
      rintro rfl
      simp [lastElement, hreverse] at h
    have hpath : path ≠ [] := by
      rintro rfl
      cases hreverse
    have htrimmed : (path.reverse.dropWhile (· == slash)).reverse = path := by
      rw [hreverse, List.dropWhile_cons_of_neg (by simpa using hb), ← hreverse,
        List.reverse_reverse]
    rw [base, if_neg hpath]
    simp only [htrimmed]
    rw [if_neg hpath]

/-! Names are cut at the last dot. -/

theorem extension_isSuffix (path : Bytes) : extension path <:+ lastElement path := by
  rw [extension]
  by_cases hdot : dot ∈ lastElement path
  · simp only [if_pos hdot]
    generalize lastElement path = name at hdot ⊢
    cases hrest : name.reverse.dropWhile (· != dot) with
    | nil =>
      have hall := List.dropWhile_eq_nil_iff.1 hrest dot (List.mem_reverse.2 hdot)
      simp at hall
    | cons b rest =>
      have hb := List.head?_dropWhile_not (· != dot) name.reverse
      simp only [hrest, List.head?_cons, bne_eq_false_iff_eq] at hb
      refine ⟨rest.reverse, ?_⟩
      calc rest.reverse ++ dot :: (name.reverse.takeWhile (· != dot)).reverse
          = (name.reverse.takeWhile (· != dot) ++ b :: rest).reverse := by simp [hb]
        _ = name := by rw [← hrest, List.takeWhile_append_dropWhile, List.reverse_reverse]
  · simp only [if_neg hdot]
    exact List.nil_suffix

theorem stem_append_extension (path : Bytes) : stem path ++ extension path = path := by
  have hsuffix : extension path <:+ path :=
    (extension_isSuffix path).trans ⟨beforeLast path, beforeLast_append_lastElement path⟩
  exact List.suffix_iff_eq_append.1 hsuffix

theorem slash_not_mem_extension (path : Bytes) : slash ∉ extension path :=
  fun h => slash_not_mem_lastElement path ((extension_isSuffix path).mem h)

theorem directory_stem (path : Bytes) : directory (stem path) = directory path := by
  have happend := directory_append (stem path) (slash_not_mem_extension path)
  rw [stem_append_extension] at happend
  exact happend.symm

/-! The elements that cleaning keeps, the last one first. -/

def kept (path : Bytes) : List Bytes := (split slash path).foldl (push (isRooted path)) []

/-- What one more element makes of the elements kept so far. Above the root there is nothing, and
a step upwards takes back the last element unless that is a step upwards, too. -/
inductive Pushes (rooted : Bool) : List Bytes → Bytes → List Bytes → Prop where
  | skip {ks : List Bytes} {e : Bytes} (h : e = [] ∨ e = here) : Pushes rooted ks e ks
  | stay (h : rooted) : Pushes rooted [] parent []
  | leave (h : ¬rooted) : Pushes rooted [] parent [parent]
  | climb {ks : List Bytes} : Pushes rooted (parent :: ks) parent (parent :: parent :: ks)
  | back {last : Bytes} {ks : List Bytes} (h : last ≠ parent) : Pushes rooted (last :: ks) parent ks
  | enter {ks : List Bytes} {e : Bytes} (hnil : e ≠ []) (hhere : e ≠ here) (h : e ≠ parent) :
      Pushes rooted ks e (e :: ks)

theorem pushes_push (rooted : Bool) (ks : List Bytes) (e : Bytes) :
    Pushes rooted ks e (push rooted ks e) := by
  unfold push
  by_cases hnone : e = [] ∨ e = here
  · rw [if_pos hnone]
    exact .skip hnone
  · rw [if_neg hnone]
    by_cases hparent : e = parent
    · rw [if_pos hparent, hparent]
      cases ks with
      | nil =>
        by_cases hrooted : rooted
        · simp only [if_pos hrooted]
          exact .stay hrooted
        · simp only [if_neg hrooted]
          exact .leave hrooted
      | cons last ks =>
        by_cases hlast : last = parent
        · simp only [hlast]
          exact .climb
        · simp only [if_neg hlast]
          exact .back hlast
    · rw [if_neg hparent]
      rw [not_or] at hnone
      exact .enter hnone.1 hnone.2 hparent

/-- Kept elements have names of their own but for steps upwards, which stand at the start only,
and at the start of relative paths only. -/
structure IsKept (rooted : Bool) (ks : List Bytes) : Prop where
  named : ∀ e ∈ ks, e ≠ [] ∧ e ≠ here ∧ slash ∉ e
  upwards : ks.Pairwise fun later e => later = parent → e = parent
  below : rooted → parent ∉ ks

theorem isKept_nil (rooted : Bool) : IsKept rooted [] := ⟨by simp, .nil, by simp⟩

theorem isKept_cons_iff {rooted : Bool} {e : Bytes} {ks : List Bytes} :
    IsKept rooted (e :: ks) ↔ (e ≠ [] ∧ e ≠ here ∧ slash ∉ e) ∧
      (e = parent → ¬rooted ∧ ∀ x ∈ ks, x = parent) ∧ IsKept rooted ks := by
  constructor
  · intro h
    obtain ⟨hnamed, hrest⟩ := List.forall_mem_cons.1 h.named
    obtain ⟨hupwards, hrest'⟩ := List.pairwise_cons.1 h.upwards
    refine ⟨hnamed, fun he => ⟨fun hrooted => ?_, fun x hx => hupwards x hx he⟩, hrest, hrest', ?_⟩
    · exact h.below hrooted (by simp [he])
    · exact fun hrooted hmem => h.below hrooted (.tail _ hmem)
  · rintro ⟨hnamed, hparent, h⟩
    refine ⟨List.forall_mem_cons.2 ⟨hnamed, h.named⟩, ?_, fun hrooted hmem => ?_⟩
    · exact List.pairwise_cons.2 ⟨fun x hx he => (hparent he).2 x hx, h.upwards⟩
    · rcases List.mem_cons.1 hmem with he | hmem
      · exact (hparent he.symm).1 hrooted
      · exact h.below hrooted hmem

theorem IsKept.tail {rooted : Bool} {e : Bytes} {ks : List Bytes} (h : IsKept rooted (e :: ks)) :
    IsKept rooted ks :=
  (isKept_cons_iff.1 h).2.2

theorem IsKept.push {rooted : Bool} {ks : List Bytes} {e : Bytes} (h : IsKept rooted ks)
    (he : slash ∉ e) : IsKept rooted (push rooted ks e) := by
  have hparent : parent ≠ [] ∧ parent ≠ here ∧ slash ∉ parent := by decide
  have hpushes := pushes_push rooted ks e
  generalize Path.push rooted ks e = result at hpushes ⊢
  cases hpushes with
  | skip hnone => exact h
  | stay hrooted => exact h
  | leave hrooted => exact isKept_cons_iff.2 ⟨hparent, fun _ => ⟨hrooted, by simp⟩, h⟩
  | climb =>
    obtain ⟨hrooted, hall⟩ := (isKept_cons_iff.1 h).2.1 rfl
    exact isKept_cons_iff.2
      ⟨hparent, fun _ => ⟨hrooted, List.forall_mem_cons.2 ⟨rfl, hall⟩⟩, h⟩
  | back hlast => exact h.tail
  | enter hnil hhere hname =>
    exact isKept_cons_iff.2 ⟨⟨hnil, hhere, he⟩, fun heq => absurd heq hname, h⟩

theorem isKept_foldl_push {rooted : Bool} {fields ks : List Bytes} (h : IsKept rooted ks)
    (hfields : ∀ f ∈ fields, slash ∉ f) : IsKept rooted (fields.foldl (push rooted) ks) := by
  induction fields generalizing ks with
  | nil => exact h
  | cons f fields ih =>
    apply ih (h.push (hfields f (.head _)))
    exact fun g hg => hfields g (.tail _ hg)

theorem isKept_kept (path : Bytes) : IsKept (isRooted path) (kept path) := by
  apply isKept_foldl_push (isKept_nil _)
  exact fun f hf => not_mem_of_mem_split hf

theorem push_of_isKept {rooted : Bool} {ks : List Bytes} {e : Bytes}
    (h : IsKept rooted (e :: ks)) : push rooted ks e = e :: ks := by
  obtain ⟨⟨hnil, hhere, -⟩, hparent, -⟩ := isKept_cons_iff.1 h
  have hpushes := pushes_push rooted ks e
  generalize push rooted ks e = result at hpushes ⊢
  cases hpushes with
  | skip hnone =>
    rcases hnone with hnone | hnone
    · exact absurd hnone hnil
    · exact absurd hnone hhere
  | stay hrooted => exact absurd hrooted (hparent rfl).1
  | leave hrooted => rfl
  | climb => rfl
  | back hlast => exact absurd ((hparent rfl).2 _ (.head _)) hlast
  | enter _ _ hname => rfl

/-! The spelling of kept elements. -/

def lead (rooted : Bool) : List Bytes → Bytes
  | [] => if rooted then [slash] else []
  | e :: ks => lead rooted ks ++ e ++ [slash]

/-- The clean path of kept elements. -/
def spell (rooted : Bool) : List Bytes → Bytes
  | [] => if rooted then [slash] else here
  | e :: ks => lead rooted ks ++ e

theorem isRooted_lead_append {rooted : Bool} {ks : List Bytes} {rest : Bytes}
    (h : IsKept rooted ks) (hrest : rest.head? ≠ some slash) :
    isRooted (lead rooted ks ++ rest) = rooted := by
  induction ks generalizing rest with
  | nil =>
    cases rooted with
    | true => rfl
    | false => simpa [isRooted, lead] using hrest
  | cons e ks ih =>
    obtain ⟨hnil, -, hslash⟩ := h.named e (.head _)
    rw [lead, List.append_assoc, List.append_assoc]
    apply ih h.tail
    cases e with
    | nil => exact absurd rfl hnil
    | cons b e =>
      rintro hb
      cases hb
      exact hslash (.head _)

theorem foldl_push_lead_append {rooted : Bool} {ks : List Bytes} {rest : Bytes}
    (h : IsKept rooted ks) (hrest : slash ∉ rest) :
    (split slash (lead rooted ks ++ rest)).foldl (push rooted) [] = push rooted ks rest := by
  induction ks generalizing rest with
  | nil =>
    cases rooted with
    | true =>
      have hsplit : split slash ([slash] ++ rest) = [[], rest] := by
        rw [List.singleton_append, ← List.nil_append (slash :: rest), split_append,
          split_of_not_mem hrest]
        rfl
      rw [lead, if_pos rfl, hsplit]
      rfl
    | false =>
      rw [lead, if_neg Bool.false_ne_true, List.nil_append, split_of_not_mem hrest]
      rfl
  | cons e ks ih =>
    have hslash := (h.named e (.head _)).2.2
    rw [lead, List.append_assoc, List.singleton_append, split_append, List.foldl_append,
      ih h.tail hslash, push_of_isKept h, split_of_not_mem hrest]
    rfl

theorem kept_lead_append {rooted : Bool} {ks : List Bytes} {rest : Bytes} (h : IsKept rooted ks)
    (hrest : slash ∉ rest) : kept (lead rooted ks ++ rest) = push rooted ks rest := by
  have hhead : rest.head? ≠ some slash := fun hb => hrest (List.mem_of_head? hb)
  rw [kept, isRooted_lead_append h hhead, foldl_push_lead_append h hrest]

theorem join_append_singleton (fields : List Bytes) (e : Bytes) :
    Bytes.join [slash] (fields ++ [e]) = fields.flatMap (· ++ [slash]) ++ e := by
  induction fields with
  | nil => rfl
  | cons f fields ih =>
    rw [List.cons_append, Bytes.join, ih, List.flatMap_cons, List.append_assoc (f ++ [slash])]
    simp

theorem lead_eq (rooted : Bool) (ks : List Bytes) :
    lead rooted ks = (if rooted then [slash] else []) ++ ks.reverse.flatMap (· ++ [slash]) := by
  induction ks with
  | nil => simp [lead]
  | cons e ks ih => simp [lead, ih]

theorem clean_eq_spell (path : Bytes) : clean path = spell (isRooted path) (kept path) := by
  have hkept := isKept_kept path
  have helements : elements path = (kept path).reverse := rfl
  rw [clean, helements]
  cases hks : kept path with
  | nil => cases isRooted path <;> rfl
  | cons e ks =>
    have he : e ≠ [] := (hkept.named e (by simp [hks])).1
    rw [List.reverse_cons, join_append_singleton, spell, lead_eq]
    cases isRooted path with
    | true => rfl
    | false => simp [he]

theorem clean_lead {rooted : Bool} {ks : List Bytes} (h : IsKept rooted ks) :
    clean (lead rooted ks) = spell rooted ks := by
  have hrooted := isRooted_lead_append h (show ([] : Bytes).head? ≠ some slash by simp)
  have hks := kept_lead_append h (show slash ∉ [] by simp)
  rw [List.append_nil] at hrooted hks
  rw [clean_eq_spell, hrooted, hks]
  rfl

theorem beforeLast_lead (rooted : Bool) (ks : List Bytes) :
    beforeLast (lead rooted ks) = lead rooted ks := by
  cases ks with
  | nil => cases rooted <;> rfl
  | cons e ks => exact beforeLast_slash _

theorem lastElement_lead (rooted : Bool) (ks : List Bytes) : lastElement (lead rooted ks) = [] := by
  cases ks with
  | nil => cases rooted <;> rfl
  | cons e ks => exact lastElement_slash _

theorem directory_spell {rooted : Bool} {e : Bytes} {ks : List Bytes}
    (h : IsKept rooted (e :: ks)) : directory (spell rooted (e :: ks)) = spell rooted ks := by
  rw [directory, spell, beforeLast_append _ (h.named e (.head _)).2.2, beforeLast_lead,
    clean_lead h.tail]

theorem lastElement_spell {rooted : Bool} {e : Bytes} {ks : List Bytes}
    (h : IsKept rooted (e :: ks)) : lastElement (spell rooted (e :: ks)) = e := by
  rw [spell, lastElement_append _ (h.named e (.head _)).2.2, lastElement_lead, List.nil_append]

theorem spell_ne_nil {rooted : Bool} {ks : List Bytes} (h : IsKept rooted ks) :
    spell rooted ks ≠ [] := by
  cases ks with
  | nil => cases rooted <;> decide
  | cons e ks => simp [spell, (h.named e (.head _)).1]

theorem isRooted_spell {rooted : Bool} {ks : List Bytes} (h : IsKept rooted ks) :
    isRooted (spell rooted ks) = rooted := by
  cases ks with
  | nil => cases rooted <;> rfl
  | cons e ks =>
    have hslash := (h.named e (.head _)).2.2
    exact isRooted_lead_append h.tail fun hb => hslash (List.mem_of_head? hb)

theorem kept_spell {rooted : Bool} {ks : List Bytes} (h : IsKept rooted ks) :
    kept (spell rooted ks) = ks := by
  cases ks with
  | nil => cases rooted <;> rfl
  | cons e ks => rw [spell, kept_lead_append h.tail (h.named e (.head _)).2.2, push_of_isKept h]

theorem isRooted_append {path : Bytes} (h : path ≠ []) (rest : Bytes) :
    isRooted (path ++ rest) = isRooted path := by
  cases path with
  | nil => exact absurd rfl h
  | cons b path => rfl

theorem kept_append {path e : Bytes} (h : path ≠ []) (he : slash ∉ e) :
    kept (path ++ slash :: e) = push (isRooted path) (kept path) e := by
  rw [kept, isRooted_append h, split_append, List.foldl_append, split_of_not_mem he]
  rfl

theorem join_clean {path e : Bytes} (h : IsKept (isRooted path) (e :: kept path)) :
    join [clean path, e] = spell (isRooted path) (e :: kept path) := by
  obtain ⟨hnil, -, hslash⟩ := h.named e (.head _)
  have hne := spell_ne_nil h.tail
  have hjoin : join [clean path, e] = clean (clean path ++ slash :: e) := by
    rw [clean_eq_spell path]
    simp [join, hne, hnil, Bytes.join]
  rw [hjoin, clean_eq_spell path, clean_eq_spell, kept_append hne hslash, isRooted_append hne,
    isRooted_spell h.tail, kept_spell h.tail, push_of_isKept h]

/-! Cleaning adds no bytes but those of `.` and `/`. -/

theorem mem_push {rooted : Bool} {ks : List Bytes} {element e : Bytes}
    (h : e ∈ push rooted ks element) : e ∈ ks ∨ e = element := by
  have hpushes := pushes_push rooted ks element
  generalize push rooted ks element = result at hpushes h
  cases hpushes with
  | skip hnone => exact .inl h
  | stay hrooted => exact .inl h
  | leave hrooted => exact .inr (List.mem_singleton.1 h)
  | climb => exact (List.mem_cons.1 h).symm
  | back hlast => exact .inl (.tail _ h)
  | enter hnil hhere hname => exact (List.mem_cons.1 h).symm

theorem mem_foldl_push {rooted : Bool} {fields ks : List Bytes} {e : Bytes}
    (h : e ∈ fields.foldl (push rooted) ks) : e ∈ ks ∨ e ∈ fields := by
  induction fields generalizing ks with
  | nil => exact .inl h
  | cons f fields ih =>
    rcases ih h with he | he
    · rcases mem_push he with he | he
      · exact .inl he
      · exact .inr (by simp [he])
    · exact .inr (.tail _ he)

section OtherBytes

variable {b : UInt8} (hb : b ∉ utf8 "./")
include hb

theorem not_mem_clean {path : Bytes} (h : b ∉ path) : b ∉ clean path := by
  have hslash : b ≠ slash := fun e => hb (e ▸ by decide)
  have hhere : b ∉ here := fun hmem => hb (List.mem_append_left [slash] hmem)
  have hbody : b ∉ Bytes.join [slash] (elements path) := by
    intro hmem
    rcases mem_of_mem_join hmem with hmem | ⟨e, he, hmem⟩
    · exact hslash (List.mem_singleton.1 hmem)
    · rcases mem_foldl_push (List.mem_reverse.1 he) with he | he
      · cases he
      · exact h (mem_of_mem_split he hmem)
  rw [clean]
  split_ifs
  · simp [hslash, hbody]
  · exact hhere
  · exact hbody

theorem not_mem_directory {path : Bytes} (h : b ∉ path) : b ∉ directory path := by
  apply not_mem_clean hb
  intro hmem
  apply h
  rw [← beforeLast_append_lastElement path]
  exact List.mem_append_left _ hmem

theorem not_mem_join {parts : List Bytes} (h : ∀ part ∈ parts, b ∉ part) : b ∉ join parts := by
  rw [join]
  split
  · exact List.not_mem_nil
  · apply not_mem_clean hb
    intro hmem
    rcases mem_of_mem_join hmem with hmem | ⟨part, hpart, hmem⟩
    · exact hb (.tail _ hmem)
    · exact h part (List.mem_filter.1 hpart).1 hmem

end OtherBytes

end Path

end LetExit
