import Tether.Proofs.Bytes
import Tether.Proofs.Wire.Reader
import Tether.Wire.Codec

/-! A format is exact if reading comes to a value just when the input begins with that value's
encoding, and then leaves what stands behind it. So no value has two encodings, and none is the
beginning of another. Formats put together of exact ones are exact. -/

namespace Tether

/-- A byte string whose length can be written in four bytes. -/
def Bytes.Short (bytes : Bytes) : Prop := bytes.length < UInt32.size

instance (bytes : Bytes) : Decidable bytes.Short := inferInstanceAs (Decidable (_ < _))

namespace Wire

variable {α β : Type}

namespace Codec

/-- Reading comes to a value if and only if the value fits the format and the input is its encoding
with something behind it, which is left. -/
def Exact (codec : Codec α) (fits : α → Prop) : Prop :=
  ∀ input value left, codec.read.run input = (.ok value, left) ↔
    fits value ∧ input = codec.write value ++ left

/-- Every value fits the format. -/
abbrev Total (codec : Codec α) : Prop := codec.Exact fun _ => True

theorem total_of_number {codec : Codec α} {width : Nat} {what : String} (toNat : α → Nat)
    (ofNat : Nat → α) (writes : ∀ value, codec.write value = Bytes.bigEndian width (toNat value))
    (reads : codec.read = (Reader.number width what).bind fun n => .done (ofNat n))
    (bound : ∀ value, toNat value < 256 ^ width) (ofNat_toNat : ∀ value, ofNat (toNat value) = value)
    (toNat_ofNat : ∀ n, n < 256 ^ width → toNat (ofNat n) = n) : codec.Total := by
  intro input value left
  simp only [reads, writes, Reader.run_bind_eq_ok, Reader.run_number_eq_ok, Reader.run_done_eq_ok,
    true_and]
  constructor
  · rintro ⟨_, _, ⟨⟨digits, rfl⟩, rfl, rfl⟩, rfl, rfl⟩
    rw [toNat_ofNat _ (Bytes.toNatBE_lt digits), Bytes.bigEndian_toNatBE]
  · rintro rfl
    refine ⟨toNat value, left, ⟨⟨_, Bytes.length_bigEndian width _⟩, rfl, ?_⟩, ?_, rfl⟩
    · exact Bytes.toNatBE_bigEndian (bound value)
    · exact ofNat_toNat value

theorem total_u8 : u8.Total :=
  total_of_number UInt8.toNat UInt8.ofNat (fun _ => rfl) rfl UInt8.toNat_lt
    (fun _ => UInt8.ofNat_toNat) fun _ => UInt8.toNat_ofNat_of_lt'

theorem total_u16 : u16.Total :=
  total_of_number UInt16.toNat UInt16.ofNat (fun _ => rfl) rfl UInt16.toNat_lt
    (fun _ => UInt16.ofNat_toNat) fun _ => UInt16.toNat_ofNat_of_lt'

theorem total_u32 : u32.Total :=
  total_of_number UInt32.toNat UInt32.ofNat (fun _ => rfl) rfl UInt32.toNat_lt
    (fun _ => UInt32.ofNat_toNat) fun _ => UInt32.toNat_ofNat_of_lt'

theorem total_u64 : u64.Total :=
  total_of_number UInt64.toNat UInt64.ofNat (fun _ => rfl) rfl UInt64.toNat_lt
    (fun _ => UInt64.ofNat_toNat) fun _ => UInt64.toNat_ofNat_of_lt'

variable {codec : Codec α} {fits : α → Prop}

/-- What begins with an exact format reads a value that fits, and goes on behind its encoding. -/
theorem Exact.run_bind (exact : codec.Exact fits) {rest : α → Reader β} {input left : Bytes}
    {value : β} : (codec.read.bind rest).run input = (.ok value, left) ↔
      ∃ first between, (fits first ∧ input = codec.write first ++ between) ∧
        (rest first).run between = (.ok value, left) := by
  simp only [Reader.run_bind_eq_ok, exact _ _ _]

/-- Encodings with something behind them are told apart by the values or by what is behind. -/
theorem Exact.append_inj (exact : codec.Exact fits) {one other : α} {left right : Bytes}
    (fit : fits one) (fit' : fits other)
    (same : codec.write one ++ left = codec.write other ++ right) : one = other ∧ left = right := by
  have first := (exact _ one left).mpr ⟨fit, rfl⟩
  have second := (exact _ other right).mpr ⟨fit', same⟩
  cases first.symm.trans second
  exact ⟨rfl, rfl⟩

theorem Exact.runAll_bind_done (exact : codec.Exact fits) {into : α → β} {input : Bytes} {value : β} :
    (codec.read.bind fun first => .done (into first)).runAll input = .ok value ↔
      ∃ first, fits first ∧ input = codec.write first ∧ into first = value := by
  rw [Reader.runAll_eq_ok, exact.run_bind]
  simp only [Reader.run_done_eq_ok]
  constructor
  · rintro ⟨first, _, ⟨fit, rfl⟩, made, rfl⟩
    exact ⟨first, fit, List.append_nil _, made⟩
  · rintro ⟨first, fit, rfl, made⟩
    exact ⟨first, [], ⟨fit, (List.append_nil _).symm⟩, made, rfl⟩

theorem Exact.wrap (exact : codec.Exact fits) {into : α → β} {out : β → α}
    (into_out : ∀ value, into (out value) = value) (out_into : ∀ value, out (into value) = value) :
    (codec.wrap into out).Exact fun value => fits (out value) := by
  intro input value left
  refine exact.run_bind.trans ?_
  simp only [Reader.pure_eq, Reader.run_done_eq_ok]
  constructor
  · rintro ⟨first, _, ⟨fit, rfl⟩, rfl, rfl⟩
    have same : (codec.wrap into out).write (into first) = codec.write first :=
      congrArg codec.write (out_into first)
    rw [out_into, same]
    exact ⟨fit, rfl⟩
  · rintro ⟨fit, rfl⟩
    exact ⟨out value, left, ⟨fit, rfl⟩, into_out value, rfl⟩

theorem exact_of_kinds {codec : Codec α} {fits : α → Prop} (mark : α → UInt8) (body : α → Bytes)
    (arm : UInt8 → Reader α) (writes : ∀ value, codec.write value = u8.write (mark value) ++ body value)
    (reads : codec.read = u8.read.bind arm)
    (arms : ∀ byte input value left, (arm byte).run input = (.ok value, left) ↔
      mark value = byte ∧ fits value ∧ input = body value ++ left) : codec.Exact fits := by
  intro input value left
  simp only [reads, writes, total_u8.run_bind, arms, true_and]
  constructor
  · rintro ⟨_, _, rfl, rfl, fit, rfl⟩
    exact ⟨fit, (List.append_assoc ..).symm⟩
  · rintro ⟨fit, rfl⟩
    exact ⟨_, _, List.append_assoc .., rfl, fit, rfl⟩

theorem total_unit (value : Unit) : (unit value).Total := by
  intro input other left
  simp [unit, Reader.run]

theorem total_flag : flag.Total := by
  refine exact_of_kinds (fun value => if value then 1 else 0) (fun _ => []) _
    (fun _ => (List.append_nil _).symm) rfl ?_
  intro byte input value left
  split <;> cases value <;> simp_all [Reader.pure_eq, Reader.run, eq_comm]

theorem exact_sized (what : String) : (sized what).Exact Bytes.Short := by
  intro input value left
  refine total_u32.run_bind.trans ?_
  simp only [Reader.bind_eq, Reader.run_bind_eq_ok, Reader.run_bytes_eq_ok, Reader.pure_eq,
    Reader.run_done_eq_ok, true_and]
  constructor
  · rintro ⟨length, _, rfl, bytes, _, rfl, rfl, rfl⟩
    have written : (sized what).write bytes.val = u32.write length ++ bytes.val := by
      simp only [sized, bytes.property, UInt32.ofNat_toNat]
    have short : bytes.val.Short := by
      rw [Bytes.Short, bytes.property]
      exact length.toNat_lt
    rw [written, List.append_assoc]
    exact ⟨short, rfl⟩
  · rintro ⟨short, rfl⟩
    have counted : value.length = (UInt32.ofNat value.length).toNat :=
      (UInt32.toNat_ofNat_of_lt' short).symm
    exact ⟨_, _, List.append_assoc .., ⟨value, counted⟩, left, rfl, rfl, rfl⟩

theorem exact_text : text.Exact fun value => (Bytes.ofText value).Short := by
  intro input value left
  refine (exact_sized "string").run_bind.trans ?_
  constructor
  · rintro ⟨bytes, between, ⟨short, rfl⟩, ran⟩
    split at ran
    · rename_i spelled
      obtain ⟨rfl, rfl⟩ := Reader.run_done_eq_ok.mp ran
      obtain rfl := Bytes.text?_eq_some_iff.mp spelled
      exact ⟨short, rfl⟩
    · exact absurd ran Reader.run_fail_ne_ok
  · rintro ⟨short, rfl⟩
    refine ⟨Bytes.ofText value, left, ⟨short, rfl⟩, ?_⟩
    rw [Bytes.text?_eq_some_iff.mpr rfl]
    rfl

theorem Exact.option (exact : codec.Exact fits) :
    codec.option.Exact fun value => ∀ present ∈ value, fits present := by
  refine exact_of_kinds (fun value => if value.isSome then 1 else 0)
    (fun value => value.elim [] codec.write) _ ?_ rfl ?_
  · rintro (_ | value)
    · exact (List.append_nil _).symm
    · rfl
  · intro byte input value left
    split
    · cases value <;> simp [Reader.pure_eq, Reader.run]
    · rw [Reader.bind_eq, exact.run_bind]
      cases value with
      | none => simp [Reader.pure_eq, Reader.run]
      | some value => simp [Reader.pure_eq, Reader.run]
    · cases value <;> simp_all [Reader.run, eq_comm]

end Codec

end Wire

end Tether
