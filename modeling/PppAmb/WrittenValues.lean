import PppAmb.FastWriter

/-!
# What Is Written Is Read Back

`Json::FastWriter` followed by the vendored reader. Integers come back in the type the reader
chooses, and numbers that were read as a `double` as the writer prints them.

## Main results

* `parse_write`: what is written is read back, and the reader stops the program exactly on values
  that are nested more than 1000 deep.
* `string_kept_iff`: a string is read back as it was exactly if it is UTF-8.
* `built_parse`: whatever text it is given, the reader builds ordered objects, and no value that
  is nested deeper than it could read again.
* `parse_write_parse`: a value from the reader is written and read back.
-/

namespace PppAmb

mutual

/-- The number of nodes that the reader pushes for a value. -/
def Value.nodes : Value → ℕ
  | .arrayValue elements => Value.nodesElements elements + 1
  | .objectValue members => Value.nodesMembers members + 1
  | _ => 1

/-- The most nodes that an element of an array takes. -/
def Value.nodesElements : List Value → ℕ
  | [] => 0
  | v :: vs => max v.nodes (Value.nodesElements vs)

/-- The most nodes that a member of an object takes. -/
def Value.nodesMembers : List (Bytes × Value) → ℕ
  | [] => 0
  | (_, v) :: ms => max v.nodes (Value.nodesMembers ms)

end

mutual

/-- What the types of `Json::Value` promise: integers of 64 bits, and members in the order of
their names. -/
def Value.WellTyped : Value → Prop
  | .intValue n => -2 ^ 63 ≤ n ∧ n < 2 ^ 63
  | .uintValue n => n < 2 ^ 64
  | .arrayValue elements => Value.WellTypedElements elements
  | .objectValue members => Increasing members ∧ Value.WellTypedMembers members
  | _ => True

/-- `WellTyped`, for the elements of an array. -/
def Value.WellTypedElements : List Value → Prop
  | [] => True
  | v :: vs => v.WellTyped ∧ Value.WellTypedElements vs

/-- `WellTyped`, for the members of an object. -/
def Value.WellTypedMembers : List (Bytes × Value) → Prop
  | [] => True
  | (_, v) :: ms => v.WellTyped ∧ Value.WellTypedMembers ms

end

mutual

/-- All strings and names are UTF-8. -/
def Value.TextsUtf8 : Value → Prop
  | .stringValue s => IsUtf8 s
  | .arrayValue elements => Value.TextsUtf8Elements elements
  | .objectValue members => Value.TextsUtf8Members members
  | _ => True

/-- `TextsUtf8`, for the elements of an array. -/
def Value.TextsUtf8Elements : List Value → Prop
  | [] => True
  | v :: vs => v.TextsUtf8 ∧ Value.TextsUtf8Elements vs

/-- `TextsUtf8`, for the members of an object and their names. -/
def Value.TextsUtf8Members : List (Bytes × Value) → Prop
  | [] => True
  | (name, v) :: ms => IsUtf8 name ∧ v.TextsUtf8 ∧ Value.TextsUtf8Members ms

end

section Written

variable (printReal : Bytes → Bytes)

mutual

/-- A value as the reader gives it back. -/
def Value.normal : Value → Value
  | .nullValue => .nullValue
  | .intValue n => if n < 0 then .intValue n else readNat n.toNat
  | .uintValue n => readNat n
  | .realValue token => .realValue (printReal token)
  | .stringValue s => .stringValue s
  | .booleanValue b => .booleanValue b
  | .arrayValue elements => .arrayValue (Value.normalElements elements)
  | .objectValue members => .objectValue (Value.normalMembers members)

/-- `normal`, for the elements of an array. -/
def Value.normalElements : List Value → List Value
  | [] => []
  | v :: vs => v.normal :: Value.normalElements vs

/-- `normal`, for the members of an object; names stay as they are. -/
def Value.normalMembers : List (Bytes × Value) → List (Bytes × Value)
  | [] => []
  | (name, v) :: ms => (name, v.normal) :: Value.normalMembers ms

end

/-- A `double` is printed as a number of JSON, with decimals or an exponent. -/
def PrintsReals : Prop :=
  ∀ token, ∃ x : NumberText, x.print = printReal token ∧ x.wellFormed = true ∧
    (x.fraction.isSome = true ∨ x.exponent.isSome = true)

/-! ### The text that is written -/

/-- The text of a value is the text of a JSON value, which the reader reads as the value. -/
structure WrittenAs (v : Value) (j : Json) : Prop where
  print : j.print = writeValue printReal v
  decodes : j.decodes = true
  nodes : j.nodes = v.nodes
  value : v.TextsUtf8 → ∀ depth, v.nodes ≤ depth →
    j.valueWithin depth = some (v.normal printReal)

/-- The same for the elements of an array. -/
structure ElementsWritten (vs : List Value) (js : List Json) : Prop where
  print : Json.printElements js = writeElements printReal vs
  decodes : Json.decodesElements js = true
  nodes : Json.nodesElements js = Value.nodesElements vs
  value : Value.TextsUtf8Elements vs → ∀ depth, Value.nodesElements vs ≤ depth →
    Json.elementsWithin depth js = some (Value.normalElements printReal vs)

/-- The same for the members of an object, which come behind those that are stored. -/
structure MembersWritten (ms : List (Bytes × Value)) (js : List (StringText × Json)) : Prop where
  print : (Json.printMembers js).map memberText = writeMembers printReal ms
  decodes : Json.decodesMembers js = true
  nodes : Json.nodesMembers js = Value.nodesMembers ms
  value : Value.TextsUtf8Members ms → Increasing ms → ∀ depth, Value.nodesMembers ms ≤ depth →
    ∀ stored, (∀ e ∈ stored, ∀ m ∈ ms, e.1 < m.1) →
      Json.membersWithin depth stored js = some (stored ++ Value.normalMembers printReal ms)

variable {printReal}

/-- A value that is a single node. -/
theorem writtenAs_scalar {v : Value} {j : Json} (hprint : j.print = writeValue printReal v)
    (hdecodes : j.decodes = true) (hjson : j.nodes = 1) (hnodes : v.nodes = 1)
    (hvalue : v.TextsUtf8 → ∀ depth, j.valueWithin (depth + 1) = some (v.normal printReal)) :
    WrittenAs printReal v j where
  print := hprint
  decodes := hdecodes
  nodes := hjson.trans hnodes.symm
  value := fun hutf depth hdepth => by
    obtain ⟨depth, rfl⟩ := Nat.exists_eq_add_one_of_ne_zero (by omega : depth ≠ 0)
    exact hvalue hutf depth

/-- A value that is written as a number. -/
theorem writtenAs_number {v w : Value} {x : NumberText} (hprint : x.print = writeValue printReal v)
    (hnodes : v.nodes = 1) (hread : decodeNumber x.print = some w)
    (hnormal : v.normal printReal = w) : WrittenAs printReal v (.number x) := by
  refine writtenAs_scalar hprint ?_ rfl hnodes fun _ depth => ?_
  · rw [Json.decodes, hread]
    rfl
  · rw [Json.valueWithin, hread, hnormal]

/-- An integer is written with its sign, and read as it was. -/
theorem writtenAs_intValue {n : Int} (hlow : -2 ^ 63 ≤ n) (hhigh : n < 2 ^ 63) :
    WrittenAs printReal (.intValue n) (.number (numberText (n < 0) (unsigned n.natAbs) none)) := by
  have hprint : (numberText (n < 0) (unsigned n.natAbs) none).print = signed n := by
    rw [print_numberText (unsigned_ne_nil _) (unsigned_digits _) (by simp), signed]
    simp
  refine writtenAs_number hprint rfl ?_ rfl
  rw [hprint, signed, Value.normal]
  by_cases hneg : n < 0
  · have habs : -(n.natAbs : Int) = n := by omega
    rw [if_pos hneg, if_pos hneg, List.singleton_append, decodeNumber_negative (by omega), habs]
  · have habs : n.natAbs = n.toNat := by omega
    rw [if_neg hneg, if_neg hneg, List.nil_append, habs, decodeNumber_unsigned (by omega)]

/-- A natural number is written without a sign; it is read as an `Int` where it is one. -/
theorem writtenAs_uintValue {n : ℕ} (h : n < 2 ^ 64) :
    WrittenAs printReal (.uintValue n) (.number (natText n)) :=
  writtenAs_number (print_natText n) rfl (by rw [print_natText, decodeNumber_unsigned h])
    (by rw [Value.normal])

/-- A string is written escaped. -/
theorem writtenAs_stringValue (s : Bytes) :
    WrittenAs printReal (.stringValue s) (.string ⟨escaped s, isRawString_escaped s⟩) := by
  obtain ⟨t, ht, -⟩ := exists_decodeString_escaped s
  refine writtenAs_scalar rfl ?_ rfl rfl fun hutf depth => ?_
  · rw [Json.decodes, ht]
    rfl
  · rw [Json.valueWithin, decodeString_escaped hutf]
    rfl

/-- The commas of an array or an object stand between its items. -/
theorem bracketed_eq (opening close : UInt8) (ts : List Bytes) :
    bracketed opening close ts = [opening] ++ (ts.intersperse (ascii ",")).flatten ++ [close] := by
  cases ts with
  | nil => rfl
  | cons t ts => rw [bracketed, append_itemsTail, List.append_assoc, List.singleton_append]

/-- An array is written as its elements are. -/
theorem writtenAs_arrayValue {elements : List Value} {js : List Json}
    (h : ElementsWritten printReal elements js) :
    WrittenAs printReal (.arrayValue elements) (.array js) where
  print := by rw [Json.print, h.print, bracketed_eq, writeValue]
  decodes := h.decodes
  nodes := by rw [Json.nodes, h.nodes, Value.nodes]
  value := fun hutf depth hdepth => by
    rw [Value.nodes] at hdepth
    obtain ⟨depth, rfl⟩ := Nat.exists_eq_add_one_of_ne_zero (by omega : depth ≠ 0)
    rw [Json.valueWithin, h.value hutf depth (by omega)]
    rfl

/-- An object is written as its members are, in the order of their names, which is the one in
which they are stored again. -/
theorem writtenAs_objectValue {members : List (Bytes × Value)} {js : List (StringText × Json)}
    (hinc : Increasing members) (h : MembersWritten printReal members js) :
    WrittenAs printReal (.objectValue members) (.object js) where
  print := by rw [Json.print, objectText, h.print, bracketed_eq, writeValue]
  decodes := h.decodes
  nodes := by rw [Json.nodes, h.nodes, Value.nodes]
  value := fun hutf depth hdepth => by
    rw [Value.nodes] at hdepth
    obtain ⟨depth, rfl⟩ := Nat.exists_eq_add_one_of_ne_zero (by omega : depth ≠ 0)
    rw [Json.valueWithin, h.value hutf hinc depth (by omega) [] (by simp)]
    rfl

/-- One more element. -/
theorem elementsWritten_cons {v : Value} {j : Json} {vs : List Value} {js : List Json}
    (hv : WrittenAs printReal v j) (hvs : ElementsWritten printReal vs js) :
    ElementsWritten printReal (v :: vs) (j :: js) where
  print := by rw [Json.printElements, writeElements, hv.print, hvs.print]
  decodes := by rw [Json.decodesElements, hv.decodes, hvs.decodes, Bool.and_true]
  nodes := by rw [Json.nodesElements, Value.nodesElements, hv.nodes, hvs.nodes]
  value := fun hutf depth hdepth => by
    rw [Value.nodesElements, max_le_iff] at hdepth
    rw [Json.elementsWithin, hv.value hutf.1 depth hdepth.1, hvs.value hutf.2 depth hdepth.2]
    rfl

/-- One more member: its name is written as a string. -/
theorem membersWritten_cons {name : Bytes} {v : Value} {j : Json} {ms : List (Bytes × Value)}
    {js : List (StringText × Json)} (hv : WrittenAs printReal v j)
    (hms : MembersWritten printReal ms js) :
    MembersWritten printReal ((name, v) :: ms)
      ((⟨escaped name, isRawString_escaped name⟩, j) :: js) where
  print := by
    rw [Json.printMembers, List.map_cons, writeMembers, hms.print, hv.print]
    simp [memberText, valueToQuotedStringN, ascii, ch]
  decodes := by
    obtain ⟨t, ht, -⟩ := exists_decodeString_escaped name
    rw [Json.decodesMembers, ht, hv.decodes, hms.decodes]
    rfl
  nodes := by rw [Json.nodesMembers, Value.nodesMembers, hv.nodes, hms.nodes]
  value := fun hutf hinc depth hdepth stored hstored => by
    obtain ⟨hname, hvalue, hrest⟩ := hutf
    obtain ⟨hfirst, hinc⟩ := List.pairwise_cons.mp hinc
    rw [Value.nodesMembers, max_le_iff] at hdepth
    have hset : setMember name (v.normal printReal) stored
        = stored ++ [(name, v.normal printReal)] :=
      assocSet_of_forall_lt (fun e he => hstored e he (name, v) List.mem_cons_self) _
    have hmore := hms.value hrest hinc depth hdepth.2 (stored ++ [(name, v.normal printReal)])
      fun e he m hm => by
        rcases List.mem_append.mp he with hold | hnew
        · exact hstored e hold m (List.mem_cons_of_mem _ hm)
        · rw [List.mem_singleton.mp hnew]
          exact hfirst m hm
    simp only [Json.membersWithin, decodeString_escaped hname, hv.value hvalue depth hdepth.1,
      Option.bind_eq_bind, Option.bind_some, hset, hmore, Value.normalMembers, List.append_assoc,
      List.singleton_append]

mutual

/-- Every value is written as a JSON value. -/
theorem exists_writtenAs (hreals : PrintsReals printReal) {v : Value} (h : v.WellTyped) :
    ∃ j, WrittenAs printReal v j := by
  match v with
  | .nullValue => exact ⟨.null, writtenAs_scalar rfl rfl rfl rfl fun _ _ => rfl⟩
  | .intValue n => exact ⟨_, writtenAs_intValue h.1 h.2⟩
  | .uintValue n => exact ⟨_, writtenAs_uintValue h⟩
  | .realValue token =>
      obtain ⟨x, hprint, hx, hreal⟩ := hreals token
      refine ⟨_, writtenAs_number (x := x) hprint rfl (decodeNumber_real hx hreal) ?_⟩
      rw [Value.normal, hprint]
  | .stringValue s => exact ⟨_, writtenAs_stringValue s⟩
  | .booleanValue b => exact ⟨.boolean b, writtenAs_scalar rfl rfl rfl rfl fun _ _ => rfl⟩
  | .arrayValue elements =>
      have helements : Value.WellTypedElements elements := h
      obtain ⟨js, hjs⟩ := exists_elementsWritten hreals helements
      exact ⟨_, writtenAs_arrayValue hjs⟩
  | .objectValue members =>
      obtain ⟨hinc, hmembers⟩ : Increasing members ∧ Value.WellTypedMembers members := h
      obtain ⟨js, hjs⟩ := exists_membersWritten hreals hmembers
      exact ⟨_, writtenAs_objectValue hinc hjs⟩

/-- `exists_writtenAs` for the elements of an array. -/
theorem exists_elementsWritten (hreals : PrintsReals printReal) {vs : List Value}
    (h : Value.WellTypedElements vs) : ∃ js, ElementsWritten printReal vs js := by
  match vs with
  | [] => exact ⟨[], rfl, rfl, rfl, fun _ _ _ => rfl⟩
  | v :: vs =>
      obtain ⟨hv, hvs⟩ : v.WellTyped ∧ Value.WellTypedElements vs := h
      obtain ⟨j, hj⟩ := exists_writtenAs hreals hv
      obtain ⟨js, hjs⟩ := exists_elementsWritten hreals hvs
      exact ⟨j :: js, elementsWritten_cons hj hjs⟩

/-- `exists_writtenAs` for the members of an object. -/
theorem exists_membersWritten (hreals : PrintsReals printReal) {ms : List (Bytes × Value)}
    (h : Value.WellTypedMembers ms) : ∃ js, MembersWritten printReal ms js := by
  match ms with
  | [] =>
      refine ⟨[], rfl, rfl, rfl, fun _ _ _ _ stored _ => ?_⟩
      rw [Json.membersWithin, Value.normalMembers, List.append_nil]
  | (name, v) :: ms =>
      obtain ⟨hv, hms⟩ : v.WellTyped ∧ Value.WellTypedMembers ms := h
      obtain ⟨j, hj⟩ := exists_writtenAs hreals hv
      obtain ⟨js, hjs⟩ := exists_membersWritten hreals hms
      exact ⟨_, membersWritten_cons hj hjs⟩

end

/-- White space may follow the last token. -/
theorem spaced_append_blank {ts : List Bytes} {s : Bytes} (h : Spaced ts s) {w : Bytes}
    (hw : IsJsonBlank w) : Spaced ts (s ++ w) := by
  induction h with
  | nil hw' =>
      refine .nil fun c hc => ?_
      rcases List.mem_append.mp hc with hc | hc
      · exact hw' c hc
      · exact hw c hc
  | cons hw' _ ih =>
      rw [List.append_assoc, List.append_assoc]
      exact .cons hw' ih

/-- The writer ends its text with a line feed. -/
theorem isJsonBlank_feed : IsJsonBlank (ascii "\n") := fun c hc => by
  obtain rfl : c = ch '\n' := by simpa [ascii, ch] using hc
  decide

/-- What is written is the text of a JSON value, with a line feed behind it. -/
theorem WrittenAs.spaced {v : Value} {j : Json} (h : WrittenAs printReal v j) :
    Spaced j.tokens (write printReal v) := by
  rw [write, ← h.print]
  exact spaced_append_blank (spaced_print j) isJsonBlank_feed

/-- The reader on what was written. -/
theorem WrittenAs.parse {v : Value} {j : Json} (h : WrittenAs printReal v j) :
    parse (write printReal v) = j.valueWithin stackLimit :=
  parse_eq_valueWithin h.decodes h.spaced

/-- The reader stops the program on values that are nested too deeply, and on no others, whatever
their strings are. -/
theorem parse_write_isSome (hreals : PrintsReals printReal) {v : Value} (h : v.WellTyped) :
    (parse (write printReal v)).isSome = true ↔ v.nodes ≤ 1000 := by
  obtain ⟨j, hj⟩ := exists_writtenAs hreals h
  rw [hj.parse, Json.valueWithin_isSome hj.decodes, hj.nodes, stackLimit]

/-- What was written is read back. -/
theorem parse_write_eq (hreals : PrintsReals printReal) {v : Value} (h : v.WellTyped)
    (hutf : v.TextsUtf8) :
    parse (write printReal v) = if v.nodes ≤ 1000 then some (v.normal printReal) else none := by
  obtain ⟨j, hj⟩ := exists_writtenAs hreals h
  split
  · rename_i hnodes
    rw [hj.parse, hj.value hutf stackLimit hnodes]
  · rename_i hnodes
    rwa [← Option.not_isSome_iff_eq_none, parse_write_isSome hreals h]

/-- What was written is accepted, if the reader gets through it. -/
theorem accepts_write (hreals : PrintsReals printReal) {v : Value} (h : v.WellTyped) :
    accepts (write printReal v) = if v.nodes ≤ 1000 then some true else none := by
  obtain ⟨j, hj⟩ := exists_writtenAs hreals h
  rw [accepts_eq hj.decodes hj.spaced, hj.nodes]

/-- **The writer and the reader.** The text that is written for a value is accepted, unless the
value is nested more than 1000 deep, which stops the program; and if its strings are UTF-8, the
value is read back, with its integers in the type the reader chooses and each `double` as it was
printed. -/
theorem parse_write (hreals : PrintsReals printReal) {v : Value} (h : v.WellTyped) :
    (accepts (write printReal v) = if v.nodes ≤ 1000 then some true else none) ∧
      ((parse (write printReal v)).isSome = true ↔ v.nodes ≤ 1000) ∧
      (v.TextsUtf8 → v.nodes ≤ 1000 → parse (write printReal v) = some (v.normal printReal)) :=
  ⟨accepts_write hreals h, parse_write_isSome hreals h, fun hutf hnodes => by
    rw [parse_write_eq hreals h hutf, if_pos hnodes]⟩

/-- The text of one half. -/
def printHalf : Bytes → Bytes :=
  fun _ => ascii "0.5"

/-- `printHalf` prints a number. -/
theorem printsReals_half : PrintsReals printHalf := fun _ =>
  ⟨⟨false, 0, [], some [5], none⟩, rfl, rfl, .inl rfl⟩

/-- A natural number comes back as an `Int`, and a number with an exponent as the text that is
printed for it. -/
theorem parse_write_half :
    parse (write printHalf (.arrayValue [.uintValue 7, .realValue (ascii "5e-1")]))
      = some (.arrayValue [.intValue 7, .realValue (ascii "0.5")]) :=
  (parse_write (v := .arrayValue [.uintValue 7, .realValue (ascii "5e-1")]) printsReals_half
    ⟨by simp [Value.WellTyped], trivial, trivial⟩).2.2 ⟨trivial, trivial, trivial⟩
    (by simp [Value.nodes, Value.nodesElements])

/-- **Strings.** Exactly those that are UTF-8 are read back as they were written. -/
theorem string_kept_iff (s : Bytes) :
    parse (write printReal (.stringValue s)) = some (.stringValue s) ↔ IsUtf8 s := by
  have hwritten : WrittenAs printReal (.stringValue s) (.string ⟨escaped s, _⟩) :=
    writtenAs_stringValue s
  rw [hwritten.parse]
  constructor
  · intro hkept
    obtain ⟨t, ht, hutf⟩ := exists_decodeString_escaped s
    rw [stackLimit, Json.valueWithin, ht, Option.map_some, Option.some.injEq,
      Value.stringValue.injEq] at hkept
    exact hkept ▸ hutf
  · intro hutf
    rw [hwritten.value hutf stackLimit (by simp [Value.nodes, stackLimit]), Value.normal]

end Written

/-! ### What the reader builds -/

/-- A bound on the nodes is one for every element. -/
theorem nodesElements_le_iff {vs : List Value} {n : ℕ} :
    Value.nodesElements vs ≤ n ↔ ∀ v ∈ vs, v.nodes ≤ n := by
  induction vs with
  | nil => simp [Value.nodesElements]
  | cons v vs ih => rw [Value.nodesElements, max_le_iff, ih, List.forall_mem_cons]

/-- A bound on the nodes is one for every member. -/
theorem nodesMembers_le_iff {ms : List (Bytes × Value)} {n : ℕ} :
    Value.nodesMembers ms ≤ n ↔ ∀ m ∈ ms, m.2.nodes ≤ n := by
  induction ms with
  | nil => simp [Value.nodesMembers]
  | cons m ms ih =>
      obtain ⟨name, v⟩ := m
      rw [Value.nodesMembers, max_le_iff, ih, List.forall_mem_cons]

/-- `WellTypedElements` as a statement about every element. -/
theorem wellTypedElements_iff {vs : List Value} :
    Value.WellTypedElements vs ↔ ∀ v ∈ vs, v.WellTyped := by
  induction vs with
  | nil => simp [Value.WellTypedElements]
  | cons v vs ih => rw [Value.WellTypedElements, ih, List.forall_mem_cons]

/-- `WellTypedMembers` as a statement about every member. -/
theorem wellTypedMembers_iff {ms : List (Bytes × Value)} :
    Value.WellTypedMembers ms ↔ ∀ m ∈ ms, m.2.WellTyped := by
  induction ms with
  | nil => simp [Value.WellTypedMembers]
  | cons m ms ih =>
      obtain ⟨name, v⟩ := m
      rw [Value.WellTypedMembers, ih, List.forall_mem_cons]

/-- `normalElements` is a map. -/
theorem normalElements_eq_map (printReal : Bytes → Bytes) (vs : List Value) :
    Value.normalElements printReal vs = vs.map (Value.normal printReal) := by
  induction vs with
  | nil => rfl
  | cons v vs ih => rw [Value.normalElements, ih, List.map_cons]

/-- `normalMembers` is a map over the values. -/
theorem normalMembers_eq_map (printReal : Bytes → Bytes) (ms : List (Bytes × Value)) :
    Value.normalMembers printReal ms = ms.map fun m => (m.1, m.2.normal printReal) := by
  induction ms with
  | nil => rfl
  | cons m ms ih =>
      obtain ⟨name, v⟩ := m
      rw [Value.normalMembers, ih, List.map_cons]

/-- What holds of a value the reader builds while it may push some nodes: it takes no more nodes,
and its integers have the type the reader chooses. -/
structure Built (depth : ℕ) (v : Value) : Prop where
  nodes : v.nodes ≤ depth
  wellTyped : v.WellTyped
  normal : v.normal id = v

/-- `null` takes one node. -/
theorem built_null (depth : ℕ) : Built (depth + 1) .nullValue :=
  ⟨by simp [Value.nodes], trivial, rfl⟩

/-- A truth value takes one node. -/
theorem built_boolean (depth : ℕ) (b : Bool) : Built (depth + 1) (.booleanValue b) :=
  ⟨by simp [Value.nodes], trivial, rfl⟩

/-- A string takes one node. -/
theorem built_string (depth : ℕ) (s : Bytes) : Built (depth + 1) (.stringValue s) :=
  ⟨by simp [Value.nodes], trivial, rfl⟩

/-- An array takes one node more than its elements. -/
theorem built_array {depth : ℕ} {vs : List Value} (h : ∀ v ∈ vs, Built depth v) :
    Built (depth + 1) (.arrayValue vs) where
  nodes := by
    rw [Value.nodes, Nat.add_le_add_iff_right, nodesElements_le_iff]
    exact fun v hv => (h v hv).nodes
  wellTyped := wellTypedElements_iff.mpr fun v hv => (h v hv).wellTyped
  normal := by
    rw [Value.normal, normalElements_eq_map, List.map_congr_left fun v hv => (h v hv).normal,
      List.map_id']

/-- An object takes one node more than its members; these have to be in order. -/
theorem built_object {depth : ℕ} {ms : List (Bytes × Value)} (hinc : Increasing ms)
    (h : ∀ m ∈ ms, Built depth m.2) : Built (depth + 1) (.objectValue ms) where
  nodes := by
    rw [Value.nodes, Nat.add_le_add_iff_right, nodesMembers_le_iff]
    exact fun m hm => (h m hm).nodes
  wellTyped := ⟨hinc, wellTypedMembers_iff.mpr fun m hm => (h m hm).wellTyped⟩
  normal := by
    have hsame : ∀ m ∈ ms, (m.1, m.2.normal id) = m := fun m hm => by rw [(h m hm).normal]
    rw [Value.normal, normalMembers_eq_map, List.map_congr_left hsame, List.map_id']

/-- A number that is read fits its type. -/
theorem decodeInteger_le {max : ℕ} {digits : Bytes} {value n : ℕ} (hvalue : value ≤ max)
    (h : decodeInteger max value digits = some n) : n ≤ max := by
  induction digits generalizing value with
  | nil =>
      obtain rfl := Option.some.inj h
      exact hvalue
  | cons c r ih =>
      rw [decodeInteger] at h
      split at h
      · exact absurd h (by simp)
      · rename_i hdigit
        dsimp only at h
        split at h
        · exact absurd h (by simp)
        · rename_i hroom
          refine ih ?_ h
          have hnine : c.toNat - 48 ≤ 9 := by
            rw [not_not, isDigit, Bool.and_eq_true, decide_eq_true_eq, decide_eq_true_eq] at hdigit
            have := UInt8.le_iff_toNat_le.mp hdigit.2
            have h57 : (ch '9').toNat = 57 := rfl
            omega
          by_cases hlast : r = []
          · subst hlast
            simp only [ne_eq, not_true_eq_false, false_or] at hroom
            omega
          · simp only [ne_eq, hlast, not_false_eq_true, true_or, or_true, and_true] at hroom
            omega

/-- What `decodeNumber` makes of a token is built. -/
theorem built_number {text : Bytes} {v : Value} (h : decodeNumber text = some v) (depth : ℕ) :
    Built (depth + 1) v := by
  rw [decodeNumber] at h
  split at h
  · rw [decodeDouble] at h
    split at h
    · obtain rfl := Option.some.inj h
      exact ⟨by simp [Value.nodes], trivial, rfl⟩
    · exact absurd h (by simp)
  · rename_i value hvalue
    have hle := decodeInteger_le (Nat.zero_le _) hvalue
    split at h
    · rename_i hneg
      rw [if_pos hneg] at hle
      obtain rfl := Option.some.inj h
      refine ⟨by simp [Value.nodes], ⟨by omega, by omega⟩, ?_⟩
      rw [Value.normal]
      split
      · rfl
      · obtain rfl : value = 0 := by omega
        rfl
    · rename_i hneg
      rw [if_neg hneg] at hle
      split at h
      · rename_i hsmall
        obtain rfl := Option.some.inj h
        refine ⟨by simp [Value.nodes], ⟨by omega, by omega⟩, ?_⟩
        rw [Value.normal, if_neg (by omega), Int.toNat_natCast, readNat, if_pos hsmall]
      · rename_i hlarge
        obtain rfl := Option.some.inj h
        refine ⟨by simp [Value.nodes], by rw [Value.WellTyped]; omega, ?_⟩
        rw [Value.normal, readNat, if_neg hlarge]

/-- Reading keeps what holds of the values; the node it begins with may be new. -/
def KeepsBuilt (readValue : Value → Bytes → ReadResult) (depth : ℕ) : Prop :=
  ∀ current inp ok v r, current = .nullValue ∨ Built depth current →
    readValue current inp = some (ok, v, r) → Built depth v

/-- A value that is found under a name stands among the members. -/
theorem mem_of_assocGet {key : Bytes} {members : List (Bytes × Value)} {v : Value}
    (h : assocGet key members = some v) : ∃ m ∈ members, m.2 = v := by
  induction members with
  | nil => exact absurd h (by simp [assocGet])
  | cons m ms ih =>
      obtain ⟨name, w⟩ := m
      rw [assocGet] at h
      split at h
      · exact ⟨_, List.mem_cons_self, Option.some.inj h⟩
      · obtain ⟨m, hm, hv⟩ := ih h
        exact ⟨m, List.mem_cons_of_mem _ hm, hv⟩

/-- The loop over an array builds an array from elements that are built. -/
theorem built_elements {readValue : Value → Bytes → ReadResult} {depth : ℕ}
    (hread : KeepsBuilt readValue depth) (fuel : ℕ) (elements : List Value) (inp : Bytes)
    (h : ∀ v ∈ elements, Built depth v) {ok : Bool} {v : Value} {r : Bytes}
    (hres : readElements readValue fuel elements inp = some (ok, v, r)) : Built (depth + 1) v := by
  induction fuel generalizing elements inp with
  | zero =>
      simp only [readElements, Option.some.injEq, Prod.mk.injEq] at hres
      obtain ⟨-, rfl, -⟩ := hres
      exact built_array h
  | succ fuel ih =>
      rw [readElements] at hres
      split at hres
      · exact absurd hres (by simp)
      · rename_i ok' w r' hvalue
        have hmore : ∀ v ∈ elements ++ [w], Built depth v := by
          intro v hv
          rcases List.mem_append.mp hv with hv | hv
          · exact h v hv
          · rw [List.mem_singleton.mp hv]
            exact hread _ _ _ _ _ (.inl rfl) hvalue
        have hdone : ∀ {ok' r'}, some (ok', Value.arrayValue (elements ++ [w]), r')
            = some (ok, v, r) → Built (depth + 1) v := by
          intro ok' r' heq
          simp only [Option.some.injEq, Prod.mk.injEq] at heq
          obtain ⟨-, rfl, -⟩ := heq
          exact built_array hmore
        dsimp only at hres
        split at hres
        · split at hres
          · exact hdone hres
          · exact ih _ _ hmore hres
          · exact hdone hres
        · exact hdone hres

/-- The loop over an object builds an object from members that are built, and keeps them in order.
-/
theorem built_members {readValue : Value → Bytes → ReadResult} {depth : ℕ}
    (hread : KeepsBuilt readValue depth) (fuel : ℕ) (name : Bytes)
    (members : List (Bytes × Value)) (inp : Bytes) (hinc : Increasing members)
    (h : ∀ m ∈ members, Built depth m.2) {ok : Bool} {v : Value} {r : Bytes}
    (hres : readMembers readValue fuel name members inp = some (ok, v, r)) :
    Built (depth + 1) v := by
  have hdone : ∀ {members ok' r'}, Increasing members → (∀ m ∈ members, Built depth m.2) →
      some (ok', Value.objectValue members, r') = some (ok, v, r) → Built (depth + 1) v := by
    intro members ok' r' hinc h heq
    simp only [Option.some.injEq, Prod.mk.injEq] at heq
    obtain ⟨-, rfl, -⟩ := heq
    exact built_object hinc h
  induction fuel generalizing name members inp with
  | zero => exact hdone hinc h hres
  | succ fuel ih =>
      rw [readMembers] at hres
      split at hres
      · split at hres <;> exact hdone hinc h hres
      · split at hres
        · exact hdone hinc h hres
        · rename_i name' _
          split at hres
          · split at hres
            · exact absurd hres (by simp)
            · rename_i ok' w r' hvalue
              have hcurrent : (getMember name' members).getD .nullValue = .nullValue ∨
                  Built depth ((getMember name' members).getD .nullValue) := by
                cases hget : getMember name' members with
                | none => exact .inl rfl
                | some u =>
                    obtain ⟨m, hm, rfl⟩ := mem_of_assocGet hget
                    exact .inr (h m hm)
              have hw := hread _ _ _ _ _ hcurrent hvalue
              have hinc' : Increasing (setMember name' w members) := hinc.assocSet name' w
              have hmore : ∀ m ∈ setMember name' w members, Built depth m.2 := by
                intro m hm
                rcases mem_assocSet hm with rfl | hm
                · exact hw
                · exact h m hm
              dsimp only at hres
              split at hres
              · split at hres
                · exact hdone hinc' hmore hres
                · exact ih _ _ _ hinc' hmore hres
                · split at hres
                  · exact hdone hinc' hmore hres
                  · exact ih _ _ _ hinc' hmore hres
                · exact hdone hinc' hmore hres
              · exact hdone hinc' hmore hres
          · exact hdone hinc h hres
      · exact hdone hinc h hres

/-- Whatever the text is. -/
theorem keepsBuilt_readValue (depth : ℕ) : KeepsBuilt (readValue depth) depth := by
  -- on the number of nodes that may be pushed
  induction depth with
  | zero =>
      intro current inp ok v r _ hres
      exact absurd hres (by simp [readValue])
  | succ depth ih =>
      intro current inp ok v r hcurrent hres
      have hkept : Built (depth + 1) current := by
        rcases hcurrent with rfl | h
        · exact built_null depth
        · exact h
      have hscalar : ∀ {w ok' r'}, Built (depth + 1) w → some (ok', w, r') = some (ok, v, r) →
          Built (depth + 1) v := by
        intro w ok' r' hw heq
        simp only [Option.some.injEq, Prod.mk.injEq] at heq
        obtain ⟨-, rfl, -⟩ := heq
        exact hw
      rw [readValue] at hres
      split at hres
      · exact built_members ih _ _ _ _ List.Pairwise.nil (by simp) hres
      · rw [readArray] at hres
        split at hres
        · exact built_elements ih _ _ _ (by simp) hres
        · split at hres
          · exact hscalar (built_array (by simp)) hres
          · exact built_elements ih _ _ _ (by simp) hres
      · split at hres
        · rename_i w hw
          exact hscalar (built_number hw depth) hres
        · exact hscalar hkept hres
      · split at hres
        · rename_i raw _ s _
          exact hscalar (built_string depth s) hres
        · exact hscalar hkept hres
      · exact hscalar (built_boolean depth true) hres
      · exact hscalar (built_boolean depth false) hres
      · exact hscalar (built_null depth) hres
      · exact hscalar hkept hres

/-- **What the reader builds**, from any text: objects in the order of their names, integers of
the type it chooses, and no more nodes than it may push. -/
theorem built_parse {text : Bytes} {v : Value} (h : parse text = some v) : Built stackLimit v := by
  rw [parse, Option.map_eq_some_iff] at h
  obtain ⟨⟨ok, w, r⟩, hread, rfl⟩ := h
  exact keepsBuilt_readValue stackLimit _ _ _ _ _ (.inl rfl) hread

mutual

/-- The texts of the numbers that are not integers. -/
def Value.reals : Value → List Bytes
  | .realValue token => [token]
  | .arrayValue elements => Value.realsElements elements
  | .objectValue members => Value.realsMembers members
  | _ => []

/-- The texts of the numbers with a fraction in an array. -/
def Value.realsElements : List Value → List Bytes
  | [] => []
  | v :: vs => v.reals ++ Value.realsElements vs

/-- The texts of the numbers with a fraction in an object. -/
def Value.realsMembers : List (Bytes × Value) → List Bytes
  | [] => []
  | (_, v) :: ms => v.reals ++ Value.realsMembers ms

end

section Reals

variable {printReal : Bytes → Bytes}

mutual

/-- Numbers that stand as they would be printed are not changed. -/
theorem Value.normal_eq_id {v : Value} (h : ∀ t ∈ v.reals, printReal t = t) :
    v.normal printReal = v.normal id := by
  match v with
  | .nullValue | .intValue n | .uintValue n | .stringValue s | .booleanValue b =>
      simp only [Value.normal]
  | .realValue token =>
      rw [Value.normal, Value.normal, h token (by simp [Value.reals]), id_eq]
  | .arrayValue elements =>
      rw [Value.normal, Value.normal, Value.normalElements_eq_id h]
  | .objectValue members =>
      rw [Value.normal, Value.normal, Value.normalMembers_eq_id h]

/-- `normal_eq_id` for the elements of an array. -/
theorem Value.normalElements_eq_id {vs : List Value}
    (h : ∀ t ∈ Value.realsElements vs, printReal t = t) :
    Value.normalElements printReal vs = Value.normalElements id vs := by
  match vs with
  | [] => rfl
  | v :: vs =>
      rw [Value.realsElements, List.forall_mem_append] at h
      rw [Value.normalElements, Value.normalElements, Value.normal_eq_id h.1,
        Value.normalElements_eq_id h.2]

/-- `normal_eq_id` for the members of an object. -/
theorem Value.normalMembers_eq_id {ms : List (Bytes × Value)}
    (h : ∀ t ∈ Value.realsMembers ms, printReal t = t) :
    Value.normalMembers printReal ms = Value.normalMembers id ms := by
  match ms with
  | [] => rfl
  | (name, v) :: ms =>
      rw [Value.realsMembers, List.forall_mem_append] at h
      rw [Value.normalMembers, Value.normalMembers, Value.normal_eq_id h.1,
        Value.normalMembers_eq_id h.2]

end

/-- **Read, written and read again.** Whatever text a value was read from, the program does not
stop when the reader gets what the writer makes of it; and the value comes back as it was if its
strings are UTF-8 and its numbers are integers or stand as they are printed. -/
theorem parse_write_parse (hreals : PrintsReals printReal) {text : Bytes} {v : Value}
    (h : parse text = some v) :
    ∃ w, parse (write printReal v) = some w ∧
      (v.TextsUtf8 → (∀ t ∈ v.reals, printReal t = t) → w = v) := by
  have hbuilt := built_parse h
  have hnodes : v.nodes ≤ 1000 := hbuilt.nodes
  obtain ⟨w, hw⟩ := Option.isSome_iff_exists.mp
    ((parse_write_isSome hreals hbuilt.wellTyped).mpr hnodes)
  refine ⟨w, hw, fun hutf hprinted => ?_⟩
  have hread := parse_write_eq hreals hbuilt.wellTyped hutf
  rw [if_pos hnodes, hw, Value.normal_eq_id hprinted, hbuilt.normal] at hread
  exact Option.some.inj hread

/-- A text that a value was read from is read again as that value, after it was written. -/
theorem parse_write_parse_half :
    parse (write printHalf (.arrayValue [.intValue 7, .realValue (ascii "0.5")]))
      = some (.arrayValue [.intValue 7, .realValue (ascii "0.5")]) := by
  have hread : parse (ascii "[7,0.5")
      = some (.arrayValue [.intValue 7, .realValue (ascii "0.5")]) := by rfl
  obtain ⟨w, hw, hkept⟩ := parse_write_parse printsReals_half hread
  rw [hw, hkept ⟨trivial, trivial, trivial⟩ (by
    simp [Value.reals, Value.realsElements, printHalf])]

end Reals

end PppAmb
