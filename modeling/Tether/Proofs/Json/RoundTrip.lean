import Tether.Proofs.Json.Numbers

namespace Tether.Json

namespace Parser

variable {rest : List Char}

/-- The piece that a character is read as. -/
def pieceOf (c : Char) : Piece := if c.toNat < 32 then .unit c.toNat else .char c

theorem pieces_escape {c meant : Char} (means : escape? c = some meant) (rest : List Char) :
    pieces ('\\' :: c :: rest) =
      (pieces rest).map fun result => (.char meant :: result.1, result.2) := by
  rw [pieces]
  · rw [means]
    cases pieces rest <;> rfl
  · rintro a b d e rest rfl
    cases means

theorem pieces_plain {c : Char} (quote : c ≠ '"') (backslash : c ≠ '\\') (visible : ¬c.toNat < 32)
    (rest : List Char) :
    pieces (c :: rest) = (pieces rest).map fun result => (.char c :: result.1, result.2) := by
  rw [pieces]
  · rw [if_neg (by simp [visible, backslash])]
    cases pieces rest <;> rfl
  · exact quote
  · intros
    exact backslash ‹_›
  · intros
    exact backslash ‹_›

theorem hexDigit?_hexDigit {digit : Nat} (small : digit < 16) :
    hexDigit? (Bytes.hexDigit digit) = some digit := by
  have each : ∀ digit < 16, hexDigit? (Bytes.hexDigit digit) = some digit := by decide
  exact each digit small

theorem pieces_control {code : Nat} (control : code < 32) (rest : List Char) :
    pieces ('\\' :: 'u' :: '0' :: '0' :: Bytes.hexDigit (code / 16) :: Bytes.hexDigit (code % 16) ::
        rest) =
      (pieces rest).map fun result => (.unit code :: result.1, result.2) := by
  have high := hexDigit?_hexDigit (show code / 16 < 16 by omega)
  have low := hexDigit?_hexDigit (show code % 16 < 16 by omega)
  have zero : hexDigit? '0' = some 0 := rfl
  have whole : 0 * 4096 + 0 * 256 + code / 16 * 16 + code % 16 = code := by omega
  simp only [pieces, high, low, zero, bind, Option.bind, whole]
  cases pieces rest <;> rfl

theorem pieces_renderChar (c : Char) (rest : List Char) :
    pieces (renderChar c ++ rest) =
      (pieces rest).map fun result => (pieceOf c :: result.1, result.2) := by
  unfold renderChar
  split
  · rename_i quote
    subst quote
    exact pieces_escape rfl rest
  · rename_i quote
    split
    · rename_i backslash
      subst backslash
      exact pieces_escape rfl rest
    · rename_i backslash
      split
      · rename_i control
        rw [pieceOf, if_pos control]
        exact pieces_control control rest
      · rename_i visible
        rw [pieceOf, if_neg visible]
        exact pieces_plain quote backslash visible rest

theorem pieces_flatMap (text rest : List Char) :
    pieces (text.flatMap renderChar ++ '"' :: rest) = some (text.map pieceOf, rest) := by
  induction text with
  | nil => rfl
  | cons c text ih =>
    rw [List.flatMap_cons, List.append_assoc, pieces_renderChar, ih]
    rfl

theorem joinPieces_unit {code : Nat} (small : code < 0xd800) (rest : List Piece) :
    joinPieces (.unit code :: rest) = (Char.ofNat code :: ·) <$> joinPieces rest := by
  rw [joinPieces.eq_def]
  exact if_pos (Or.inl small)

theorem joinPieces_map (text : List Char) : joinPieces (text.map pieceOf) = some text := by
  induction text with
  | nil => rfl
  | cons c text ih =>
    rw [List.map_cons, pieceOf]
    split
    · rename_i control
      rw [joinPieces_unit (by omega), ih, Char.ofNat_toNat]
      rfl
    · rw [joinPieces, ih]
      rfl

/-- Half a character is a well-formed string, but no text. -/
theorem stringTail_half (rest : List Char) :
    stringTail (['\\', 'u', 'd', '8', '0', '0', '"'] ++ rest) = some (none, rest) := by
  have eight : hexDigit? '8' = some 8 := rfl
  have zero : hexDigit? '0' = some 0 := rfl
  have thirteen : hexDigit? 'd' = some 13 := rfl
  simp only [stringTail, pieces, List.cons_append, List.nil_append, eight, zero, thirteen, bind,
    Option.bind]
  rfl

theorem stringTail_renderText (text : JsonText) (rest : List Char) :
    ∃ tail, renderText text = '"' :: tail ∧ stringTail (tail ++ rest) = some (text, rest) := by
  cases text with
  | none => exact ⟨['\\', 'u', 'd', '8', '0', '0', '"'], rfl, stringTail_half rest⟩
  | some text =>
    refine ⟨text.toList.flatMap renderChar ++ ['"'], rfl, ?_⟩
    rw [List.append_assoc, stringTail]
    simp only [List.singleton_append, pieces_flatMap, joinPieces_map, bind, Option.bind]
    exact congrArg (fun text => some (some text, rest)) String.ofList_toList

end Parser

/-- What holds of plain values, and of arrays and objects if it holds of what is in them, holds of
every value. -/
@[elab_as_elim]
theorem values_induction {motive : Json → Prop} (null : motive .null)
    (bool : ∀ value, motive (.bool value)) (number : ∀ value, motive (.number value))
    (string : ∀ text, motive (.string text))
    (array : ∀ items, (∀ item ∈ items, motive item) → motive (.array items))
    (object : ∀ fields, (∀ field ∈ fields, motive field.2) → motive (.object fields))
    (value : Json) : motive value := by
  have noItem : ∀ item ∈ ([] : List Json), motive item := List.forall_mem_nil _
  have noField : ∀ field ∈ ([] : List (JsonText × Json)), motive field.2 := List.forall_mem_nil _
  exact @Json.rec motive (fun items => ∀ item ∈ items, motive item)
    (fun fields => ∀ field ∈ fields, motive field.2) (fun field => motive field.2)
    null bool number string array object
    noItem (fun _ _ first more => List.forall_mem_cons.mpr ⟨first, more⟩)
    noField (fun _ _ first more => List.forall_mem_cons.mpr ⟨first, more⟩)
    (fun _ _ item => item) value

mutual

/-- Whether all numbers in a value are well-formed. -/
def WellFormed : Json → Prop
  | .number value => value.WellFormed
  | .array items => ItemsWellFormed items
  | .object fields => FieldsWellFormed fields
  | _ => True

def ItemsWellFormed : List Json → Prop
  | [] => True
  | item :: items => WellFormed item ∧ ItemsWellFormed items

def FieldsWellFormed : List (JsonText × Json) → Prop
  | [] => True
  | (_, item) :: fields => WellFormed item ∧ FieldsWellFormed fields

end

theorem itemsWellFormed_iff {items : List Json} :
    ItemsWellFormed items ↔ ∀ item ∈ items, WellFormed item := by
  induction items with
  | nil => simp [ItemsWellFormed]
  | cons item items ih => simp [ItemsWellFormed, ih]

theorem fieldsWellFormed_iff {fields : List (JsonText × Json)} :
    FieldsWellFormed fields ↔ ∀ field ∈ fields, WellFormed field.2 := by
  induction fields with
  | nil => simp [FieldsWellFormed]
  | cons field fields ih => simp [FieldsWellFormed, ih]

namespace Parser

variable {rest : List Char}

theorem endsNumber_cons {c : Char} (rest : List Char)
    (other : digit? c = none ∧ c ≠ '.' ∧ c ≠ 'e' ∧ c ≠ 'E') : EndsNumber (c :: rest) := by
  rintro next ⟨⟩
  exact other

/-- What a value starts with: no blank, and nothing that ends an array. -/
def Starts (text : List Char) : Prop := ∃ first more,
  text = first :: more ∧ isBlank first = false ∧ first ≠ ']'

theorem isBlank_of_digit? {c : Char} {value : Nat} (isDigit : digit? c = some value) :
    isBlank c = false := by
  have space : c ≠ ' ' := ne_of_digit? isDigit rfl
  have tab : c ≠ '\t' := ne_of_digit? isDigit rfl
  have newline : c ≠ '\n' := ne_of_digit? isDigit rfl
  have back : c ≠ '\r' := ne_of_digit? isDigit rfl
  simp [isBlank, space, tab, newline, back]

theorem skipBlanks_of_starts {text : List Char} (starts : Starts text) (rest : List Char) :
    skipBlanks (text ++ rest) = text ++ rest := by
  obtain ⟨first, more, rfl, visible, _⟩ := starts
  exact List.dropWhile_cons_of_neg (by simp [visible])

theorem starts_renderNumber {number : JsonNumber} (wellFormed : number.WellFormed) :
    Starts number.render := by
  obtain ⟨first, more, same, rfl | ⟨value, isDigit⟩⟩ := exists_render_eq wellFormed
  · exact ⟨'-', more, same, rfl, by decide⟩
  · exact ⟨first, more, same, isBlank_of_digit? isDigit, ne_of_digit? isDigit rfl⟩

theorem starts_renderText (text : JsonText) : Starts (renderText text) := by
  obtain ⟨tail, same, _⟩ := stringTail_renderText text []
  exact ⟨'"', tail, same, rfl, by decide⟩

theorem starts_renderValue {value : Json} (wellFormed : value.WellFormed) :
    Starts value.renderValue := by
  cases value with
  | null => exact ⟨'n', _, rfl, rfl, by decide⟩
  | bool value => cases value <;> exact ⟨_, _, rfl, rfl, by decide⟩
  | number value => exact starts_renderNumber wellFormed
  | string text => exact starts_renderText text
  | array items => cases items <;> exact ⟨'[', _, rfl, rfl, by decide⟩
  | object fields =>
    cases fields with
    | nil => exact ⟨'\x7b', _, rfl, rfl, by decide⟩
    | cons field fields => exact ⟨'\x7b', _, rfl, rfl, by decide⟩

/-- Whether a value is read back from what is written of it, whatever follows it that is no part of
a number. -/
def Reads (value : Json) : Prop := ∀ rest fuel, EndsNumber rest →
  value.renderValue.length ≤ fuel → Parser.value fuel (value.renderValue ++ rest) = some (value, rest)

theorem value_of_number {first : Char} {more : List Char}
    (starts : first = '-' ∨ ∃ value, digit? first = some value) (fuel : Nat) :
    value (fuel + 1) (first :: more) =
      (fun result => (.number result.1, result.2)) <$> Parser.number (first :: more) := by
  have other {c : Char} (sign : '-' ≠ c) (noDigit : digit? c = none) : first ≠ c := by
    rcases starts with rfl | ⟨value, isDigit⟩
    · exact sign
    · exact ne_of_digit? isDigit noDigit
  rw [value]
  all_goals
    intro after same
    exact other (by decide) rfl (List.cons.inj same).1

theorem reads_number {number : JsonNumber} (wellFormed : number.WellFormed) :
    Reads (.number number) := by
  intro rest fuel ends enough
  obtain ⟨first, more, same, starts⟩ := exists_render_eq wellFormed
  rw [renderValue, same, List.length_cons] at enough
  obtain ⟨fuel, rfl⟩ := Nat.exists_eq_add_of_le' (Nat.le_of_add_left_le enough)
  rw [renderValue]
  have read := number_render wellFormed ends
  rw [same, List.cons_append] at read ⊢
  rw [value_of_number starts, read]
  rfl

theorem length_pos_of_starts {text : List Char} (starts : Starts text) : 0 < text.length := by
  obtain ⟨first, more, rfl, _⟩ := starts
  exact Nat.succ_pos more.length

theorem endsNumber_renderItems (items : List Json) (rest : List Char) :
    EndsNumber (renderItems items ++ rest) := by
  cases items <;> exact endsNumber_cons _ (by decide)

theorem skipBlanks_renderItems (items : List Json) (rest : List Char) :
    skipBlanks (renderItems items ++ rest) = renderItems items ++ rest := by
  cases items <;> rfl

theorem items_render {item : Json} {more : List Json}
    (wellFormed : ∀ each ∈ item :: more, each.WellFormed)
    (reads : ∀ each ∈ item :: more, Reads each) (rest : List Char) {fuel : Nat}
    (enough : item.renderValue.length + (renderItems more).length ≤ fuel) :
    items fuel (item.renderValue ++ (renderItems more ++ rest)) = some (item :: more, rest) := by
  induction more generalizing item fuel with
  | nil =>
    have one : 1 ≤ (renderItems []).length := Nat.le_refl 1
    obtain ⟨fuel, rfl⟩ : ∃ less, fuel = less + 1 := Nat.exists_eq_add_of_le' (by omega)
    have read := reads item List.mem_cons_self _ fuel (endsNumber_renderItems [] rest) (by omega)
    simp only [items, read, bind, Option.bind]
    rfl
  | cons next more ih =>
    have nextWellFormed := List.forall_mem_cons.mp (List.forall_mem_cons.mp wellFormed).2
    have nonempty := length_pos_of_starts (starts_renderValue (wellFormed item List.mem_cons_self))
    simp only [renderItems, List.cons_append, List.length_cons, List.length_append] at enough
    obtain ⟨fuel, rfl⟩ : ∃ less, fuel = less + 1 := Nat.exists_eq_add_of_le' (by omega)
    have read := reads item List.mem_cons_self _ fuel
      (endsNumber_renderItems (next :: more) rest) (by omega)
    have readMore : items fuel (next.renderValue ++ (renderItems more ++ rest)) =
        some (next :: more, rest) :=
      ih (List.forall_mem_cons.mp wellFormed).2 (List.forall_mem_cons.mp reads).2 (by omega)
    simp only [items, read, bind, Option.bind, skipBlanks_renderItems]
    simp only [renderItems, List.cons_append, List.append_assoc,
      skipBlanks_of_starts (starts_renderValue nextWellFormed.1), readMore]
    rfl

theorem value_array {text : List Char} (starts : Starts text) (rest : List Char) (fuel : Nat) :
    value (fuel + 1) ('[' :: (text ++ rest)) =
      (fun result => (.array result.1, result.2)) <$> items fuel (text ++ rest) := by
  rw [value, skipBlanks_of_starts starts]
  obtain ⟨first, more, rfl, _, noEnd⟩ := starts
  split
  · rename_i closes
    exact absurd (List.cons.inj closes).1 noEnd
  · rfl

theorem reads_array {written : List Json} (wellFormed : ∀ each ∈ written, each.WellFormed)
    (reads : ∀ each ∈ written, Reads each) : Reads (.array written) := by
  intro rest fuel ends enough
  cases written with
  | nil =>
    obtain ⟨fuel, rfl⟩ := Nat.exists_eq_add_of_le' (Nat.le_of_add_left_le enough)
    rfl
  | cons item more =>
    simp only [renderValue, List.cons_append, List.length_cons, List.length_append] at enough
    obtain ⟨fuel, rfl⟩ := Nat.exists_eq_add_of_le' (Nat.le_of_add_left_le enough)
    have starts := starts_renderValue (wellFormed item List.mem_cons_self)
    simp only [renderValue, List.cons_append, List.append_assoc]
    rw [value_array starts, items_render wellFormed reads rest (Nat.le_of_succ_le_succ enough)]
    rfl

theorem endsNumber_renderFields (fields : List (JsonText × Json)) (rest : List Char) :
    EndsNumber (renderFields fields ++ rest) := by
  cases fields <;> exact endsNumber_cons _ (by decide)

theorem skipBlanks_renderFields (fields : List (JsonText × Json)) (rest : List Char) :
    skipBlanks (renderFields fields ++ rest) = renderFields fields ++ rest := by
  cases fields <;> rfl

/-- The first field of an object is read, and what follows it decides whether there are more. -/
theorem fields_cons {name : JsonText} {item : Json} (wellFormed : item.WellFormed)
    (reads : Reads item) (after : List (JsonText × Json)) (rest : List Char) {fuel : Nat}
    (enough : item.renderValue.length ≤ fuel) :
    fields (fuel + 1)
        (renderText name ++ ':' :: (item.renderValue ++ (renderFields after ++ rest))) =
      match renderFields after ++ rest with
      | '}' :: rest => some ([(name, item)], rest)
      | ',' :: rest =>
        (fields fuel (skipBlanks rest)).map fun more => ((name, item) :: more.1, more.2)
      | _ => none := by
  obtain ⟨tail, same, readName⟩ := stringTail_renderText name
    (':' :: (item.renderValue ++ (renderFields after ++ rest)))
  have readItem := reads _ fuel (endsNumber_renderFields after rest) enough
  have skips : skipBlanks (':' :: (item.renderValue ++ (renderFields after ++ rest))) =
      ':' :: (item.renderValue ++ (renderFields after ++ rest)) := rfl
  simp only [same, List.cons_append, fields, readName, bind, Option.bind, skips,
    skipBlanks_of_starts (starts_renderValue wellFormed), readItem, skipBlanks_renderFields]
  cases after with
  | nil => rfl
  | cons next after =>
    simp only [renderFields, List.cons_append]
    cases fields fuel _ <;> rfl

theorem fields_render {name : JsonText} {item : Json} {more : List (JsonText × Json)}
    (wellFormed : ∀ each ∈ (name, item) :: more, each.2.WellFormed)
    (reads : ∀ each ∈ (name, item) :: more, Reads each.2) (rest : List Char) {fuel : Nat}
    (enough : (renderText name).length + item.renderValue.length + (renderFields more).length ≤
      fuel) :
    fields fuel (renderText name ++ ':' :: (item.renderValue ++ (renderFields more ++ rest))) =
      some ((name, item) :: more, rest) := by
  induction more generalizing name item fuel with
  | nil =>
    have quoted := length_pos_of_starts (starts_renderText name)
    obtain ⟨fuel, rfl⟩ : ∃ less, fuel = less + 1 := Nat.exists_eq_add_of_le' (by omega)
    have room : item.renderValue.length ≤ fuel := by omega
    rw [fields_cons (wellFormed _ List.mem_cons_self) (reads _ List.mem_cons_self) [] rest room]
    rfl
  | cons next more ih =>
    obtain ⟨nextName, nextItem⟩ := next
    have quoted := length_pos_of_starts (starts_renderText name)
    simp only [renderFields, List.cons_append, List.length_cons, List.length_append] at enough
    obtain ⟨fuel, rfl⟩ : ∃ less, fuel = less + 1 := Nat.exists_eq_add_of_le' (by omega)
    have room : item.renderValue.length ≤ fuel := by omega
    have readMore : fields fuel (renderText nextName ++
          ':' :: (nextItem.renderValue ++ (renderFields more ++ rest))) =
        some ((nextName, nextItem) :: more, rest) :=
      ih (List.forall_mem_cons.mp wellFormed).2 (List.forall_mem_cons.mp reads).2 (by omega)
    rw [fields_cons (wellFormed _ List.mem_cons_self) (reads _ List.mem_cons_self) _ rest room]
    simp only [renderFields, List.cons_append, List.append_assoc,
      skipBlanks_of_starts (starts_renderText nextName), readMore]
    rfl

theorem value_object (name : JsonText) (rest : List Char) (fuel : Nat) :
    value (fuel + 1) ('{' :: (renderText name ++ rest)) =
      (fun result => (.object result.1, result.2)) <$> fields fuel (renderText name ++ rest) := by
  rw [value, skipBlanks_of_starts (starts_renderText name)]
  obtain ⟨tail, same, _⟩ := stringTail_renderText name []
  rw [same]
  rfl

theorem reads_object {written : List (JsonText × Json)}
    (wellFormed : ∀ each ∈ written, each.2.WellFormed)
    (reads : ∀ each ∈ written, Reads each.2) : Reads (.object written) := by
  intro rest fuel ends enough
  cases written with
  | nil =>
    obtain ⟨fuel, rfl⟩ := Nat.exists_eq_add_of_le' (Nat.le_of_add_left_le enough)
    rfl
  | cons field more =>
    obtain ⟨name, item⟩ := field
    simp only [renderValue, List.cons_append, List.length_cons, List.length_append] at enough
    obtain ⟨fuel, rfl⟩ := Nat.exists_eq_add_of_le' (Nat.le_of_add_left_le enough)
    simp only [renderValue, List.cons_append, List.append_assoc]
    rw [value_object, fields_render wellFormed reads rest (by omega)]
    rfl

/-- What is written of a well-formed value is read back, whatever follows it that is no part of a
number. -/
theorem reads_of_wellFormed {value : Json} (wellFormed : value.WellFormed) : Reads value := by
  induction value using values_induction with
  | null =>
    rintro rest (_ | fuel) ends enough
    · cases enough
    · rfl
  | bool value =>
    rintro rest (_ | fuel) ends enough
    · cases value <;> cases enough
    · cases value <;> rfl
  | number value => exact reads_number wellFormed
  | string text =>
    intro rest fuel ends enough
    obtain ⟨tail, same, read⟩ := stringTail_renderText text rest
    rw [renderValue, same] at enough ⊢
    obtain ⟨fuel, rfl⟩ := Nat.exists_eq_add_of_le' (Nat.le_of_add_left_le enough)
    rw [List.cons_append, value, read]
    rfl
  | array items ih =>
    have each := itemsWellFormed_iff.mp wellFormed
    exact reads_array each fun item member => ih item member (each item member)
  | object fields ih =>
    have each := fieldsWellFormed_iff.mp wellFormed
    exact reads_object each fun field member => ih field member (each field member)

end Parser

theorem parse?_render {value : Json} (wellFormed : value.WellFormed) :
    parse? value.render = some value := by
  have starts := Parser.skipBlanks_of_starts (Parser.starts_renderValue wellFormed) []
  have read := Parser.reads_of_wellFormed wellFormed [] (2 * value.renderValue.length + 1)
    (by rintro next ⟨⟩) (by omega)
  rw [List.append_nil] at starts read
  rw [parse?, render, String.toList_ofList]
  simp only [starts, read, bind, Option.bind]
  rfl

end Tether.Json
