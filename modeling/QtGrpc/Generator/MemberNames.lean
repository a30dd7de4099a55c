import QtGrpc.Generator.Members

/-!
# Names derived from fields

The names of properties and member functions begin with the camel-case name of a field or with a
word in front of it, and a reserved word is escaped. The letters and digits that a derived name
begins with are told apart from what is put behind them.
-/

namespace QtGrpc.Generator

/-- A camel-case name: letters and digits, without an upper-case letter in front. -/
def FieldDescriptor.IsCamelCase (f : FieldDescriptor) : Prop :=
  f.camelcaseName.all isAsciiAlnum = true ∧
    f.camelcaseName.head?.all (fun c => !(decide (65 ≤ c) && decide (c ≤ 90))) = true

/-- A name that is escaped. -/
def isReserved (name : Bytes) : Bool :=
  listOfQmlExceptions.contains name || listOfCppExceptions.contains name

/-- What a name is escaped with. -/
def reservedSuffix (name : Bytes) : Bytes :=
  if listOfQmlExceptions.contains name then ascii "_proto"
  else if listOfCppExceptions.contains name then ascii "_"
  else []

/-- A name keeps its form exactly if it is not reserved. -/
theorem reservedSuffix_eq_nil_iff {name : Bytes} :
    reservedSuffix name = [] ↔ isReserved name = false := by
  simp only [reservedSuffix, isReserved, Bool.or_eq_false_iff, List.contains_iff_mem]
  by_cases hqml : name ∈ listOfQmlExceptions
  · rw [if_pos hqml]
    simp [hqml, ascii]
  · rw [if_neg hqml]
    by_cases hcpp : name ∈ listOfCppExceptions
    · rw [if_pos hcpp]
      simp [hcpp, ascii]
    · rw [if_neg hcpp]
      simp [hqml, hcpp]

/-- Escaping for both languages adds one suffix. -/
theorem qualifiedName_eq (name : Bytes) :
    qualifiedCppName (qualifiedQmlName name) = name ++ reservedSuffix name := by
  simp only [qualifiedQmlName, reservedSuffix, List.contains_iff_mem]
  by_cases hqml : name ∈ listOfQmlExceptions
  · rw [if_pos hqml, if_pos hqml, qualifiedCppName, if_neg]
    have hnone : ∀ word ∈ listOfQmlExceptions, word ++ ascii "_proto" ∉ listOfCppExceptions := by
      decide +kernel
    exact hnone name hqml
  · rw [if_neg hqml, if_neg hqml, qualifiedCppName]
    split
    · rfl
    · exact (List.append_nil name).symm

/-- The empty name is not escaped. -/
theorem reservedSuffix_nil : reservedSuffix [] = [] := by decide

/-- There are two suffixes. -/
theorem reservedSuffix_cases (name : Bytes) :
    reservedSuffix name = [] ∨ reservedSuffix name = ascii "_" ∨
      reservedSuffix name = ascii "_proto" := by
  rw [reservedSuffix]
  split
  · exact Or.inr (Or.inr rfl)
  · split
    · exact Or.inr (Or.inl rfl)
    · exact Or.inl rfl

/-! ## Letters and digits in front -/

/-- A text that does not go on with a letter or a digit. -/
def NoAlnumFront (rest : Bytes) : Prop := rest.head?.all (fun c => !isAsciiAlnum c) = true

/-- The letters and digits in front of a text are known from it. -/
theorem append_alnum_inj {front other rest back : Bytes} (hfront : front.all isAsciiAlnum = true)
    (hother : other.all isAsciiAlnum = true) (hrest : NoAlnumFront rest) (hback : NoAlnumFront back) :
    front ++ rest = other ++ back ↔ front = other ∧ rest = back := by
  constructor
  · intro h
    induction front generalizing other with
    | nil =>
      cases other with
      | nil => exact ⟨rfl, h⟩
      | cons c other =>
        rw [List.nil_append] at h
        rw [NoAlnumFront, h] at hrest
        simp at hrest hother
        simp [hrest] at hother
    | cons b front ih =>
      rw [List.all_cons, Bool.and_eq_true] at hfront
      cases other with
      | nil =>
        rw [List.nil_append] at h
        rw [NoAlnumFront, ← h] at hback
        simp [hfront.1] at hback
      | cons c other =>
        rw [List.all_cons, Bool.and_eq_true] at hother
        obtain ⟨rfl, htail⟩ := List.cons.inj h
        obtain ⟨rfl, rfl⟩ := ih hfront.2 hother.2 htail
        exact ⟨rfl, rfl⟩
  · rintro ⟨rfl, rfl⟩
    rfl

/-- Nothing does not begin with a letter or digit. -/
theorem noAlnumFront_nil : NoAlnumFront [] := rfl

/-- Nor does a suffix, with more of the kind behind it. -/
theorem noAlnumFront_suffix (name rest : Bytes) (h : NoAlnumFront rest ∨ isReserved name = true) :
    NoAlnumFront (reservedSuffix name ++ rest) := by
  rcases reservedSuffix_cases name with hnil | hcpp | hqml
  · rw [hnil]
    refine h.resolve_right fun hreserved => ?_
    rw [reservedSuffix_eq_nil_iff.mp hnil] at hreserved
    cases hreserved
  · rw [hcpp]
    rfl
  · rw [hqml]
    rfl

/-- Nor does a suffix alone. -/
theorem noAlnumFront_reserved (name : Bytes) : NoAlnumFront (reservedSuffix name) := by
  have h := noAlnumFront_suffix name [] (Or.inl noAlnumFront_nil)
  rw [List.append_nil] at h
  exact h

/-- Nor does one before the ending of a pointer property. -/
theorem noAlnumFront_pointer (name : Bytes) : NoAlnumFront (reservedSuffix name ++ ascii "_p") :=
  noAlnumFront_suffix name (ascii "_p") (Or.inl rfl)

/-- No name is escaped with what is put behind the name of a pointer. -/
theorem reservedSuffix_ne_pointer (name other : Bytes) :
    reservedSuffix name ≠ reservedSuffix other ++ ascii "_p" := by
  rcases reservedSuffix_cases name with h | h | h <;>
    rcases reservedSuffix_cases other with hother | hother | hother <;>
    rw [h, hother] <;> decide

/-- No suffix and no ending of a pointer property is that of a reserved name's list. -/
theorem reservedSuffix_ne_data {name other : Bytes} (h : isReserved other = true) :
    reservedSuffix name ≠ reservedSuffix other ++ ascii "Data" ∧
      reservedSuffix name ++ ascii "_p" ≠ reservedSuffix other ++ ascii "Data" := by
  rcases reservedSuffix_cases other with hother | hother | hother
  · rw [reservedSuffix_eq_nil_iff.mp hother] at h
    cases h
  · rcases reservedSuffix_cases name with hname | hname | hname <;> rw [hname, hother] <;> decide
  · rcases reservedSuffix_cases name with hname | hname | hname <;> rw [hname, hother] <;> decide

/-! ## Names of fields -/

/-- What the two cases of a first letter are. -/
theorem firstLetter_case (c : UInt8) :
    (isAsciiAlnum c = true → isAsciiAlnum (if isAsciiAlpha c then c &&& ~~~0x20 else c) = true) ∧
    (!(decide (97 ≤ (if isAsciiAlpha c then c &&& ~~~0x20 else c)) &&
      decide ((if isAsciiAlpha c then c &&& ~~~0x20 else c) ≤ 122))) = true ∧
    ((!(decide (65 ≤ c) && decide (c ≤ 90))) = true →
      (if isAsciiAlpha c then c ||| 0x20 else c) = c ∧
        deCapitalizeAsciiName (capitalizeAsciiName [c]) = [c]) :=
  forall_byte (P := fun c =>
    (isAsciiAlnum c = true → isAsciiAlnum (if isAsciiAlpha c then c &&& ~~~0x20 else c) = true) ∧
    (!(decide (97 ≤ (if isAsciiAlpha c then c &&& ~~~0x20 else c)) &&
      decide ((if isAsciiAlpha c then c &&& ~~~0x20 else c) ≤ 122))) = true ∧
    ((!(decide (65 ≤ c) && decide (c ≤ 90))) = true →
      (if isAsciiAlpha c then c ||| 0x20 else c) = c ∧
        deCapitalizeAsciiName (capitalizeAsciiName [c]) = [c])) (by decide +kernel) c

/-- A capitalized name has letters and digits only. -/
theorem capitalize_all {name : Bytes} (h : name.all isAsciiAlnum = true) :
    (capitalizeAsciiName name).all isAsciiAlnum = true := by
  cases name with
  | nil => rfl
  | cons c name =>
    rw [List.all_cons, Bool.and_eq_true] at h
    rw [capitalizeAsciiName, List.all_cons, Bool.and_eq_true]
    exact ⟨(firstLetter_case c).1 h.1, h.2⟩

/-- The suffix stays as it is where a name is capitalized. -/
theorem capitalize_suffix (name : Bytes) :
    capitalizeAsciiName (name ++ reservedSuffix name) =
      capitalizeAsciiName name ++ reservedSuffix name := by
  cases name with
  | nil => rw [reservedSuffix_nil]; rfl
  | cons c name => rfl

/-- No capitalized name begins with a lower-case letter. -/
theorem head_capitalize (name : Bytes) :
    (capitalizeAsciiName name).head?.all (fun c => !(decide (97 ≤ c) && decide (c ≤ 122))) = true := by
  cases name with
  | nil => rfl
  | cons c name => exact (firstLetter_case c).2.1

namespace FieldDescriptor

variable {f g : FieldDescriptor}

/-- The name of a property is the camel-case name with its suffix. -/
theorem IsCamelCase.propertyName_eq (h : f.IsCamelCase) :
    f.propertyName = f.camelcaseName ++ reservedSuffix f.camelcaseName := by
  have hlower : deCapitalizeAsciiName f.camelcaseName = f.camelcaseName := by
    obtain ⟨-, hhead⟩ := h
    cases hname : f.camelcaseName with
    | nil => rfl
    | cons c name =>
      rw [hname] at hhead
      rw [deCapitalizeAsciiName, ((firstLetter_case c).2.2 hhead).1]
  rw [propertyName, hlower, qualifiedName_eq]

/-- A camel-case name is had back from its capitalized form. -/
theorem IsCamelCase.deCapitalize_capitalize (h : f.IsCamelCase) :
    deCapitalizeAsciiName (capitalizeAsciiName f.camelcaseName) = f.camelcaseName := by
  obtain ⟨-, hhead⟩ := h
  cases hname : f.camelcaseName with
  | nil => rfl
  | cons c name =>
    rw [hname] at hhead
    have hfirst := (List.cons.inj ((firstLetter_case c).2.2 hhead).2).1
    rw [capitalizeAsciiName, deCapitalizeAsciiName, hfirst]

/-- Capitalized camel-case names are as different as the names. -/
theorem IsCamelCase.capitalize_inj (hf : f.IsCamelCase) (hg : g.IsCamelCase) :
    capitalizeAsciiName f.camelcaseName = capitalizeAsciiName g.camelcaseName ↔
      f.camelcaseName = g.camelcaseName := by
  constructor
  · intro h
    rw [← hf.deCapitalize_capitalize, h, hg.deCapitalize_capitalize]
  · intro h
    rw [h]

end FieldDescriptor

/-- The words in front of the names of member functions. -/
def memberPrefixes : List Bytes := [ascii "has", mutableGetterPrefix, ascii "clear"]

/-- The words before a capitalized name are letters. -/
theorem memberPrefix_all {word : Bytes} (h : word ∈ memberPrefixes) :
    word.all isAsciiAlnum = true := by
  have hall : ∀ word ∈ memberPrefixes, word.all isAsciiAlnum = true := by decide
  exact hall word h

/-- No reserved word goes on with an upper-case letter behind such a word, or ends like the
deprecated properties. -/
theorem reserved_apart : (∀ word ∈ memberPrefixes, ∀ reserved ∈ listOfQmlExceptions ++ listOfCppExceptions,
      word.isPrefixOf reserved = true → (reserved.drop word.length).head?.all
        (fun c => !(decide (97 ≤ c) && decide (c ≤ 122))) = false) ∧
    ∀ reserved ∈ listOfQmlExceptions ++ listOfCppExceptions,
      (ascii "Data").isSuffixOf reserved = false := by decide +kernel

/-- No reserved word is a capitalized name with such a word in front. -/
theorem isReserved_memberPrefix {word : Bytes} (h : word ∈ memberPrefixes) (name : Bytes) :
    isReserved (word ++ capitalizeAsciiName name) = false := by
  rw [Bool.eq_false_iff, isReserved]
  intro hreserved
  rw [Bool.or_eq_true, List.contains_iff_mem, List.contains_iff_mem, ← List.mem_append] at hreserved
  have hlower := reserved_apart.1 word h _ hreserved (List.isPrefixOf_iff_prefix.mpr (List.prefix_append _ _))
  rw [List.drop_left, head_capitalize] at hlower
  cases hlower

/-- No reserved word ends in `Data`. -/
theorem isReserved_data (name : Bytes) : isReserved (name ++ ascii "Data") = false := by
  rw [Bool.eq_false_iff, isReserved]
  intro hreserved
  rw [Bool.or_eq_true, List.contains_iff_mem, List.contains_iff_mem, ← List.mem_append] at hreserved
  have hsuffix := reserved_apart.2 _ hreserved
  rw [List.isSuffixOf_iff_suffix.mpr (List.suffix_append _ _)] at hsuffix
  cases hsuffix

namespace FieldDescriptor

variable {f g : FieldDescriptor}

/-! ## Names of two fields -/

/-- The names of properties are as different as the camel-case names. -/
theorem propertyName_inj (hf : f.IsCamelCase) (hg : g.IsCamelCase) :
    f.propertyName = g.propertyName ↔ f.camelcaseName = g.camelcaseName := by
  rw [hf.propertyName_eq, hg.propertyName_eq]
  rw [append_alnum_inj hf.1 hg.1 (noAlnumFront_reserved _) (noAlnumFront_reserved _)]
  constructor
  · exact And.left
  · intro h
    rw [h]
    exact ⟨rfl, rfl⟩

/-- A name with a word in front, and its letters and digits. -/
theorem IsCamelCase.prefixed_eq (h : f.IsCamelCase) (word : Bytes) :
    word ++ capitalizeAsciiName f.propertyName =
      (word ++ capitalizeAsciiName f.camelcaseName) ++ reservedSuffix f.camelcaseName := by
  rw [h.propertyName_eq, capitalize_suffix, List.append_assoc]

/-- A word and a capitalized name are letters and digits. -/
theorem IsCamelCase.prefixed_all (h : f.IsCamelCase) {word : Bytes} (hword : word ∈ memberPrefixes) :
    (word ++ capitalizeAsciiName f.camelcaseName).all isAsciiAlnum = true := by
  rw [List.all_append, memberPrefix_all hword, capitalize_all h.1]
  rfl

/-- Behind one word, the names of members are as different as the camel-case names. -/
theorem prefixed_inj (hf : f.IsCamelCase) (hg : g.IsCamelCase) (word : Bytes) :
    word ++ capitalizeAsciiName f.propertyName = word ++ capitalizeAsciiName g.propertyName ↔
      f.camelcaseName = g.camelcaseName := by
  rw [List.append_cancel_left_eq]
  constructor
  · intro h
    rw [hf.propertyName_eq, hg.propertyName_eq, capitalize_suffix, capitalize_suffix] at h
    exact (hf.capitalize_inj hg).mp ((append_alnum_inj (capitalize_all hf.1) (capitalize_all hg.1)
      (noAlnumFront_reserved _) (noAlnumFront_reserved _)).mp h).1
  · intro h
    rw [(propertyName_inj hf hg).mpr h]

/-- No property is named like a pointer property. -/
theorem propertyName_ne_pointer (hf : f.IsCamelCase) (hg : g.IsCamelCase) :
    f.propertyName ≠ g.propertyName ++ ascii "_p" := by
  rw [hf.propertyName_eq, hg.propertyName_eq, List.append_assoc]
  intro h
  exact reservedSuffix_ne_pointer _ _
    ((append_alnum_inj hf.1 hg.1 (noAlnumFront_reserved _) (noAlnumFront_pointer _)).mp h).2

/-- Nor is a member with a word before its name. -/
theorem prefixed_ne_pointer (hf : f.IsCamelCase) (hg : g.IsCamelCase) {word : Bytes}
    (hword : word ∈ memberPrefixes) :
    word ++ capitalizeAsciiName f.propertyName ≠ g.propertyName ++ ascii "_p" := by
  rw [hf.prefixed_eq, hg.propertyName_eq, List.append_assoc g.camelcaseName]
  intro h
  exact reservedSuffix_ne_pointer _ _ ((append_alnum_inj (hf.prefixed_all hword) hg.1
    (noAlnumFront_reserved _) (noAlnumFront_pointer _)).mp h).2

/-- A property is named like a member function of another field just if the camel-case names say so
and that field's name is not escaped. -/
theorem propertyName_eq_prefixed_iff (hf : f.IsCamelCase) (hg : g.IsCamelCase) {word : Bytes}
    (hword : word ∈ memberPrefixes) :
    f.propertyName = word ++ capitalizeAsciiName g.propertyName ↔
      isReserved g.camelcaseName = false ∧
        f.camelcaseName = word ++ capitalizeAsciiName g.camelcaseName := by
  rw [hf.propertyName_eq, hg.prefixed_eq, append_alnum_inj hf.1 (hg.prefixed_all hword)
    (noAlnumFront_reserved _) (noAlnumFront_reserved _), and_comm]
  refine and_congr_left fun hname => ?_
  rw [hname, reservedSuffix_eq_nil_iff.mpr (isReserved_memberPrefix hword _),
    ← reservedSuffix_eq_nil_iff]
  exact eq_comm

/-- The camel-case name with the ending of a list property is letters and digits. -/
theorem data_all (hg : g.IsCamelCase) : (g.camelcaseName ++ ascii "Data").all isAsciiAlnum = true := by
  rw [List.all_append, hg.1]
  decide

/-- The deprecated property of a list has letters and digits only if its field is not escaped. -/
theorem eq_data_iff (hg : g.IsCamelCase) {front rest : Bytes} (hfront : front.all isAsciiAlnum = true)
    (hrest : NoAlnumFront rest)
    (hdata : isReserved g.camelcaseName = true →
      rest ≠ reservedSuffix g.camelcaseName ++ ascii "Data") :
    front ++ rest = g.propertyName ++ ascii "Data" ↔
      isReserved g.camelcaseName = false ∧ rest = [] ∧ front = g.camelcaseName ++ ascii "Data" := by
  rw [hg.propertyName_eq, List.append_assoc]
  cases hreserved : isReserved g.camelcaseName with
  | false =>
    have hparts := append_alnum_inj hfront (data_all hg) hrest noAlnumFront_nil
    rw [List.append_nil] at hparts
    rw [reservedSuffix_eq_nil_iff.mpr hreserved, List.nil_append, hparts, and_iff_right rfl, and_comm]
  | true =>
    refine iff_of_false ?_ (by simp)
    intro h
    have hback := noAlnumFront_suffix g.camelcaseName (ascii "Data") (Or.inr hreserved)
    exact hdata hreserved ((append_alnum_inj hfront hg.1 hrest hback).mp h).2

/-- A property is named like the list property of another one. -/
theorem propertyName_eq_data_iff (hf : f.IsCamelCase) (hg : g.IsCamelCase) :
    f.propertyName = g.propertyName ++ ascii "Data" ↔
      isReserved g.camelcaseName = false ∧ f.camelcaseName = g.camelcaseName ++ ascii "Data" := by
  rw [hf.propertyName_eq, eq_data_iff hg hf.1 (noAlnumFront_reserved _)
    fun h => (reservedSuffix_ne_data h).1]
  refine and_congr_right fun _ => ?_
  rw [and_comm]
  refine and_iff_left_of_imp fun hname => ?_
  rw [hname, reservedSuffix_eq_nil_iff.mpr (isReserved_data _)]

/-- A member with a word before its name is named like a list property. -/
theorem prefixed_eq_data_iff (hf : f.IsCamelCase) (hg : g.IsCamelCase) {word : Bytes}
    (hword : word ∈ memberPrefixes) :
    word ++ capitalizeAsciiName f.propertyName = g.propertyName ++ ascii "Data" ↔
      isReserved g.camelcaseName = false ∧ isReserved f.camelcaseName = false ∧
        word ++ capitalizeAsciiName f.camelcaseName = g.camelcaseName ++ ascii "Data" := by
  rw [hf.prefixed_eq, eq_data_iff hg (hf.prefixed_all hword) (noAlnumFront_reserved _)
    (fun h => (reservedSuffix_ne_data h).1), reservedSuffix_eq_nil_iff]

/-- No pointer property is named like a list property. -/
theorem pointer_ne_data (hf : f.IsCamelCase) (hg : g.IsCamelCase) :
    f.propertyName ++ ascii "_p" ≠ g.propertyName ++ ascii "Data" := by
  rw [hf.propertyName_eq, List.append_assoc]
  intro h
  have hparts := (eq_data_iff hg hf.1 (noAlnumFront_pointer _)
    fun h => (reservedSuffix_ne_data h).2).mp h
  have hnil := hparts.2.1
  rw [List.append_eq_nil_iff] at hnil
  exact absurd hnil.2 (by decide)

end FieldDescriptor

end QtGrpc.Generator
