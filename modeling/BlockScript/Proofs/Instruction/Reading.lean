import BlockScript.Instruction.Configure
import BlockScript.Proofs.Color
import BlockScript.Proofs.Number.Exact

namespace BlockScript

open Number

variable {value : Param} {x : Float}

/-- A parameter says a finite number, as a number or as the text of one. -/
inductive Param.Says : Param → Float → Prop
  | integer {n : Int64} (hfinite : (Float.ofInt n.toInt).isFinite = true) :
    Says (integer n) (Float.ofInt n.toInt)
  | number {x : Float} (hfinite : x.isFinite = true) : Says (number x) x
  | text {s : String} {x : Float} (hread : read? (Text.trim s.toList) = some x)
    (hfinite : x.isFinite = true) : Says (text s) x

theorem Param.Says.isFinite (h : value.Says x) : x.isFinite = true := by
  cases h with
  | integer hfinite => exact hfinite
  | number hfinite => exact hfinite
  | text _ hfinite => exact hfinite

theorem Param.number?_eq_some_iff : value.number? = some x ↔ value.Says x := by
  rw [number?, Option.filter_eq_some_iff]
  constructor
  · rintro ⟨hvalue, hfinite⟩
    cases value with
    | integer n =>
      cases hvalue
      exact .integer hfinite
    | number y =>
      cases hvalue
      exact .number hfinite
    | text s => exact .text hvalue hfinite
    | flag | other => contradiction
  · intro h
    refine ⟨?_, h.isFinite⟩
    cases h with
    | integer => rfl
    | number => rfl
    | text hread => exact hread

theorem Param.text?_eq_some_iff {s : String} : value.text? = some s ↔ value = text s := by
  cases value <;> simp [text?]

theorem Text.eq_or_eq_of_toLower {c d : Char} (h : d.toLower = c) :
    d = c ∨ d = .ofNat (c.toNat - 32) := by
  rw [Char.toLower] at h
  split at h
  · next hd =>
    right
    have hle : d.toNat ≤ 90 := hd.2
    have hval : c.toNat = d.toNat + 32 := by
      rw [← h]
      show (d.val.toNat + 32) % 2 ^ 32 = _
      exact Nat.mod_eq_of_lt (by show d.toNat + 32 < _; omega)
    rw [hval, Nat.add_sub_cancel, Char.ofNat_toNat]
  · exact .inl h

namespace Axis

variable {axis : Axis} {text : String}

/-- A text names an axis by its letter in either case, blanks around it aside. -/
def IsNamed (axis : Axis) (text : String) : Prop :=
  (Text.trim text.toList).map Char.toLower = axis.name.toList

theorem parse?_eq_some_iff : Axis.parse? text = some axis ↔ axis.IsNamed text := by
  rw [parse?, IsNamed]
  generalize Text.trim text.toList = word
  constructor
  · intro h
    split at h <;> cases h <;> decide
  · intro h
    obtain ⟨c, hc⟩ : ∃ c, axis.name.toList = [c] := by cases axis <;> exact ⟨_, rfl⟩
    rw [hc] at h
    obtain ⟨d, rfl, hd⟩ := List.map_eq_singleton_iff.1 h
    cases axis <;> cases hc <;> obtain rfl | rfl := Text.eq_or_eq_of_toLower hd <;> rfl

end Axis

namespace Instruction

/-- A count is rounded up and held between one and the largest number that there is room for. -/
theorem toNat_rounds (hx : x.isFinite = true) :
    ((rounds x).toNat : ℤ) = max 1 (min ⌈exact x⌉ (2 ^ 32 - 1)) := by
  have hone : x < 1 ↔ exact x < 1 := by rw [lt_iff_exact_lt hx rfl, exact_one]
  rw [rounds]
  split
  · next hlt =>
    have hceil : ⌈exact x⌉ ≤ 1 := Int.ceil_le.2 (by exact_mod_cast (hone.1 hlt).le)
    show 1 = _
    omega
  · next hge =>
    have hle : 1 ≤ exact x := not_lt.1 (mt hone.2 hge)
    have hceil : 1 ≤ ⌈exact x⌉ := Int.one_le_ceil_iff.2 (by linarith)
    have hnat : (⌈exact x⌉₊ : ℤ) = ⌈exact x⌉ := Int.natCast_ceil_eq_ceil (by linarith)
    have hsize : min (Number.ceil x) (UInt32.size - 1) < UInt32.size := by
      have hpos : 0 < UInt32.size := by decide
      omega
    rw [UInt32.toNat_ofNat_of_lt' hsize, ceil_eq]
    have hmost : UInt32.size - 1 = 2 ^ 32 - 1 := rfl
    omega

inductive Field
  | count (times : UInt32)
  | seconds (x : Float)
  | amount (x : Float32)
  | axis (axis : Axis)
  | color (color : Color)
deriving DecidableEq

/-- A value is one for a field of its kind, which has a new content by it. -/
inductive Field.Reads (value : Param) : Field → Field → Prop
  | count {old new : UInt32} {x : Float} (hx : value.Says x)
    (hnew : (new.toNat : ℤ) = max 1 (min ⌈exact x⌉ (2 ^ 32 - 1))) :
    Reads value (.count old) (.count new)
  | seconds {old x : Float} (hx : value.Says x) :
    Reads value (.seconds old) (.seconds (if x < 0 then 0 else x))
  | amount {old : Float32} {x : Float} (hx : value.Says x) :
    Reads value (.amount old) (.amount (single x))
  | axis {old new : Axis} {text : String} (hvalue : value = .text text)
    (hnew : new.IsNamed text) : Reads value (.axis old) (.axis new)
  | color {old new : Color} {text : String} (hvalue : value = .text text)
    (hnew : Color.Means text new ∨ Color.MeansSigned text new) :
    Reads value (.color old) (.color new)

/-- The field that a value makes of a field, if it is one for a field of that kind. -/
def Field.read? (field : Field) (value : Param) : Option Field :=
  match field with
  | count _ => value.number?.map fun x => count (rounds x)
  | seconds _ => (seconds? value).map seconds
  | amount _ => (amount? value).map amount
  | axis _ => (axis? value).map axis
  | color _ => (value.text?.bind Color.parse?).map color

theorem Field.reads_of_read? {field new : Field} (h : field.read? value = some new) :
    field.Reads value new := by
  cases field with
  | count old =>
    obtain ⟨x, hx, rfl⟩ := Option.map_eq_some_iff.1 h
    have hx := Param.number?_eq_some_iff.1 hx
    exact .count hx (toNat_rounds hx.isFinite)
  | seconds old =>
    obtain ⟨_, hseconds, rfl⟩ := Option.map_eq_some_iff.1 h
    obtain ⟨x, hx, rfl⟩ := Option.map_eq_some_iff.1 hseconds
    exact .seconds (Param.number?_eq_some_iff.1 hx)
  | amount old =>
    obtain ⟨_, hamount, rfl⟩ := Option.map_eq_some_iff.1 h
    obtain ⟨x, hx, rfl⟩ := Option.map_eq_some_iff.1 hamount
    exact .amount (Param.number?_eq_some_iff.1 hx)
  | axis old =>
    obtain ⟨axis, haxis, rfl⟩ := Option.map_eq_some_iff.1 h
    obtain ⟨text, htext, haxis⟩ := Option.bind_eq_some_iff.1 haxis
    exact .axis (Param.text?_eq_some_iff.1 htext) (Axis.parse?_eq_some_iff.1 haxis)
  | color old =>
    obtain ⟨color, hcolor, rfl⟩ := Option.map_eq_some_iff.1 h
    obtain ⟨text, htext, hcolor⟩ := Option.bind_eq_some_iff.1 hcolor
    exact .color (Param.text?_eq_some_iff.1 htext) (Color.parse?_eq_some_iff.1 hcolor)

theorem Field.Reads.read?_eq {field new : Field} (h : field.Reads value new) :
    field.read? value = some new := by
  cases h with
  | @count old new x hx hnew =>
    have hrounds := toNat_rounds hx.isFinite
    obtain rfl : new = rounds x := UInt32.toNat_inj.1 (by omega)
    rw [read?, Param.number?_eq_some_iff.2 hx]
    rfl
  | seconds hx =>
    rw [read?, seconds?, Param.number?_eq_some_iff.2 hx]
    rfl
  | amount hx =>
    rw [read?, amount?, Param.number?_eq_some_iff.2 hx]
    rfl
  | axis hvalue hnew =>
    rw [read?, axis?, Param.text?_eq_some_iff.2 hvalue, Option.bind_some,
      Axis.parse?_eq_some_iff.2 hnew]
    rfl
  | color hvalue hnew =>
    rw [read?, Param.text?_eq_some_iff.2 hvalue, Option.bind_some, Color.parse?_eq_some_iff.2 hnew]
    rfl

theorem Field.read?_eq_some_iff {field new : Field} :
    field.read? value = some new ↔ field.Reads value new :=
  ⟨reads_of_read?, Reads.read?_eq⟩

end Instruction

end BlockScript
