import Mathlib.Algebra.Group.Nat.Defs
import Mathlib.Tactic.SplitIfs
import LetExit.Wire

/-!
# Reading records back

A reader for the binary form of records. It takes the tag byte apart, reads
as many bytes of number as the tag says, as many bytes of a string as its
length says, and as many pairs of a map as the tag of the map says. What was
written is read back, whatever follows it, if its numbers have 64 bits. So a
sequence of records is determined by their bytes one after another.
-/

set_option autoImplicit false

namespace LetExit.Wire

def Major.ofUpper? : Nat → Option Major
  | 0 => some .int
  | 1 => some .negative
  | 3 => some .string
  | 5 => some .map
  | _ => none

def width? : Nat → Option Nat
  | 24 => some 1
  | 25 => some 2
  | 26 => some 4
  | 27 => some 8
  | _ => none

def ofBigEndian (bs : Bytes) : Nat := bs.foldl (fun n b => 256 * n + b.toNat) 0

def cut? (n : Nat) (bs : Bytes) : Option (Bytes × Bytes) :=
  if n ≤ bs.length then some (bs.take n, bs.drop n) else none

/-- The number that the lower bits of a tag byte hold or announce. -/
def number? (lower : Nat) (bs : Bytes) : Option (Nat × Bytes) :=
  if lower < 24 then some (lower, bs)
  else (width? lower).bind fun width => (cut? width bs).map (Prod.map ofBigEndian id)

def tag? : Bytes → Option (Major × Nat × Bytes)
  | [] => none
  | b :: rest =>
    (Major.ofUpper? (b.toNat / 32)).bind fun major =>
      (number? (b.toNat % 32) rest).map fun r => (major, r)

inductive Value where
  | int (v : Int)
  | string (bs : Bytes)
  deriving DecidableEq, Repr

def Value.wire : Value → Bytes
  | .int v => Wire.int v
  | .string bs => Wire.string bs

abbrev Field := Bytes × Value

def record (fields : List Field) : Bytes :=
  map fields.length (fields.map fun f => (f.1, f.2.wire))

def value? (bs : Bytes) : Option (Value × Bytes) :=
  match tag? bs with
  | some (.int, n, rest) => some (.int n, rest)
  | some (.negative, n, rest) => some (.int (1 - n), rest)
  | some (.string, n, rest) => (cut? n rest).map (Prod.map .string id)
  | _ => none

def field? (bs : Bytes) : Option (Field × Bytes) :=
  match value? bs with
  | some (.string key, rest) => (value? rest).map fun r => ((key, r.1), r.2)
  | _ => none

def fields? : Nat → Bytes → Option (List Field × Bytes)
  | 0, bs => some ([], bs)
  | n + 1, bs =>
    (field? bs).bind fun r => (fields? n r.2).map (Prod.map (r.1 :: ·) id)

def record? (bs : Bytes) : Option (List Field × Bytes) :=
  match tag? bs with
  | some (.map, n, rest) => fields? n rest
  | _ => none

/-! Numbers and tags. -/

theorem cut?_append (bs rest : Bytes) : cut? bs.length (bs ++ rest) = some (bs, rest) := by
  simp [cut?]

theorem ofBigEndian_bigEndian {width n : Nat} (h : n < 256 ^ width) :
    ofBigEndian (bigEndian width n) = n := by
  induction width generalizing n with
  | zero =>
    have hn : n = 0 := by simpa using h
    rw [hn]
    rfl
  | succ width ih =>
    have hdiv : n / 256 < 256 ^ width := by
      rw [Nat.pow_succ] at h
      exact Nat.div_lt_of_lt_mul (by omega)
    have hfold : ofBigEndian (bigEndian (width + 1) n) =
        256 * ofBigEndian (bigEndian width (n / 256)) + n % 256 := by
      simp [ofBigEndian, bigEndian]
    rw [hfold, ih hdiv]
    exact Nat.div_add_mod n 256

theorem number?_of_lt {lower : Nat} (h : lower < 24) (bs : Bytes) :
    number? lower bs = some (lower, bs) := if_pos h

theorem number?_bigEndian {lower width n : Nat} (hlower : ¬lower < 24)
    (hwidth : width? lower = some width) (h : n < 256 ^ width) (rest : Bytes) :
    number? lower (bigEndian width n ++ rest) = some (n, rest) := by
  have hcut : cut? width (bigEndian width n ++ rest) = some (bigEndian width n, rest) := by
    have happend := cut?_append (bigEndian width n) rest
    rwa [length_bigEndian] at happend
  rw [number?, if_neg hlower, hwidth, Option.bind_some, hcut, Option.map_some, Prod.map,
    ofBigEndian_bigEndian h]
  rfl

theorem tag?_cons (major : Major) {lower : Nat} (h : lower < 32) (rest : Bytes) :
    tag? (UInt8.ofNat (major.bits + lower) :: rest) =
      (number? lower rest).map fun r => (major, r) := by
  have hbyte : (UInt8.ofNat (major.bits + lower)).toNat = major.bits + lower := by
    rw [UInt8.toNat_ofNat']
    cases major <;> simp only [Major.bits] <;> omega
  have hdiv : (major.bits + lower) / 32 = major.bits / 32 := by
    cases major <;> simp only [Major.bits] <;> omega
  have hmod : (major.bits + lower) % 32 = lower := by
    cases major <;> simp only [Major.bits] <;> omega
  have hupper : Major.ofUpper? (major.bits / 32) = some major := by
    cases major <;> rfl
  rw [tag?, hbyte, hdiv, hmod, hupper, Option.bind_some]

theorem tag?_bigEndian (major : Major) {lower width n : Nat} (hlower : ¬lower < 24 ∧ lower < 32)
    (hwidth : width? lower = some width) (h : n < 256 ^ width) (rest : Bytes) :
    tag? (UInt8.ofNat (major.bits + lower) :: bigEndian width n ++ rest) =
      some (major, n, rest) := by
  rw [List.cons_append, tag?_cons major hlower.2, number?_bigEndian hlower.1 hwidth h,
    Option.map_some]

theorem tag?_tag (major : Major) {n : Nat} (h : n < 0x10000000000000000) (rest : Bytes) :
    tag? (tag major n ++ rest) = some (major, n, rest) := by
  rw [tag]
  split_ifs with hsmall hone htwo hfour
  · rw [List.singleton_append, tag?_cons major (by omega), number?_of_lt hsmall, Option.map_some]
  · exact tag?_bigEndian major (by decide) rfl hone rest
  · exact tag?_bigEndian major (by decide) rfl htwo rest
  · exact tag?_bigEndian major (by decide) rfl hfour rest
  · exact tag?_bigEndian major (by decide) rfl h rest

theorem tag_ne_nil (major : Major) (n : Nat) : tag major n ≠ [] := by
  rw [tag]
  split_ifs <;> simp

/-! Values, fields and records. -/

/-- Integers that 64 bits can hold with their sign. -/
def IsInt64 (v : Int) : Prop := -0x8000000000000000 ≤ v ∧ v < 0x8000000000000000

instance (v : Int) : Decidable (IsInt64 v) :=
  inferInstanceAs (Decidable (-0x8000000000000000 ≤ v ∧ v < 0x8000000000000000))

def Value.Sized : Value → Prop
  | .int v => IsInt64 v
  | .string bs => bs.length < 0x10000000000000000

theorem value?_int {v : Int} (h : IsInt64 v) (rest : Bytes) :
    value? (int v ++ rest) = some (.int v, rest) := by
  obtain ⟨hlow, hhigh⟩ := h
  rw [int]
  split_ifs with hneg
  · rw [value?, tag?_tag _ (by omega)]
    have hv : (1 : Int) - ((1 - v).toNat : Int) = v := by omega
    simp only [hv]
  · rw [value?, tag?_tag _ (by omega)]
    have hv : (v.toNat : Int) = v := by omega
    simp only [hv]

theorem value?_string {bs : Bytes} (h : bs.length < 0x10000000000000000) (rest : Bytes) :
    value? (string bs ++ rest) = some (.string bs, rest) := by
  rw [string, List.append_assoc, value?, tag?_tag _ h]
  simp [cut?_append]

theorem value?_wire {v : Value} (h : v.Sized) (rest : Bytes) :
    value? (v.wire ++ rest) = some (v, rest) := by
  cases v with
  | int v => exact value?_int h rest
  | string bs => exact value?_string h rest

def Fits (f : Field) : Prop := f.1.length < 0x10000000000000000 ∧ f.2.Sized

theorem fits_mk {key : Bytes} {v : Value} (hkey : key.length < 0x10000000000000000)
    (hvalue : v.Sized) : Fits (key, v) := ⟨hkey, hvalue⟩

theorem field?_wire {f : Field} (h : Fits f) (rest : Bytes) :
    field? (string f.1 ++ f.2.wire ++ rest) = some (f, rest) := by
  rw [field?, List.append_assoc, value?_string h.1]
  simp only [value?_wire h.2, Option.map_some]

theorem fields?_wire {fields : List Field} (h : ∀ f ∈ fields, Fits f) (rest : Bytes) :
    fields? fields.length ((fields.flatMap fun f => string f.1 ++ f.2.wire) ++ rest) =
      some (fields, rest) := by
  induction fields with
  | nil => rfl
  | cons f fields ih =>
    rw [List.flatMap_cons, List.append_assoc, List.length_cons, fields?,
      field?_wire (h f (by simp)), Option.bind_some, ih fun g hg => h g (by simp [hg])]
    rfl

/-- The records whose fields fit, and are no more than a tag can count. -/
structure Sized (fields : List Field) : Prop where
  count : fields.length < 0x10000000000000000
  fits : ∀ f ∈ fields, Fits f

theorem record_eq (fields : List Field) :
    record fields =
      tag .map fields.length ++ fields.flatMap fun f => string f.1 ++ f.2.wire := by
  rw [record, map, List.flatMap_map]

/-- The number in the tag of a record is the number of fields that stand behind it. -/
theorem tag?_record {fields : List Field} (h : Sized fields) :
    ∃ n body, tag? (record fields) = some (.map, n, body) ∧ fields? n body = some (fields, []) := by
  refine ⟨fields.length, fields.flatMap fun f => string f.1 ++ f.2.wire, ?_, ?_⟩
  · rw [record_eq, tag?_tag _ h.count]
  · have hfields := fields?_wire h.fits []
    rwa [List.append_nil] at hfields

theorem record?_record {fields : List Field} (h : Sized fields) (rest : Bytes) :
    record? (record fields ++ rest) = some (fields, rest) := by
  rw [record_eq, List.append_assoc, record?, tag?_tag _ h.count]
  exact fields?_wire h.fits rest

theorem record_ne_nil (fields : List Field) : record fields ≠ [] := by
  rw [record_eq]
  exact List.append_ne_nil_of_left_ne_nil (tag_ne_nil _ _) _

theorem eq_of_flatMap_record_eq {rs ss : List (List Field)} (hrs : ∀ r ∈ rs, Sized r)
    (hss : ∀ s ∈ ss, Sized s) (h : rs.flatMap record = ss.flatMap record) : rs = ss := by
  induction rs generalizing ss with
  | nil =>
    cases ss with
    | nil => rfl
    | cons s ss => simp [record_ne_nil] at h
  | cons r rs ih =>
    cases ss with
    | nil => simp [record_ne_nil] at h
    | cons s ss =>
      rw [List.flatMap_cons, List.flatMap_cons] at h
      -- the first record of either side is what the reader finds in front
      have hread : some (r, rs.flatMap record) = some (s, ss.flatMap record) := by
        rw [← record?_record (hrs r (by simp)), h, record?_record (hss s (by simp))]
      obtain ⟨rfl, hrest⟩ := Prod.mk.inj (Option.some.inj hread)
      rw [ih (fun r hr => hrs r (by simp [hr])) (fun s hs => hss s (by simp [hs])) hrest]

end LetExit.Wire
