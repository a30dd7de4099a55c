import QtGrpc.Generator.MemberNames
import Mathlib.Data.List.Perm.Basic
import Mathlib.Data.List.Nodup
import Mathlib.Data.List.Pairwise
import Mathlib.Data.List.Lattice
import Mathlib.Tactic.Tauto

/-!
# Clashes of members

When the properties and the member functions of a message have names of their own, in terms of the
names of its fields and oneofs, and which clashes `GenerateHeader` reports.
-/

namespace QtGrpc.Generator

/-- Lists of distinct elements make up a list of such if no two of them share one. -/
theorem nodup_flatMap_iff {A B : Type} {l : List A} (hl : l.Nodup) {lists : A → List B} :
    (l.flatMap lists).Nodup ↔ (∀ a ∈ l, (lists a).Nodup) ∧
      ∀ a ∈ l, ∀ b ∈ l, a ≠ b → ∀ x ∈ lists a, x ∉ lists b := by
  rw [List.nodup_flatMap]
  refine and_congr_right fun _ => ?_
  constructor
  · intro hpairwise a ha b hb hne x hx hxb
    have hsymm : Std.Symm (Function.onFun List.Disjoint lists) := ⟨fun _ _ h => List.Disjoint.symm h⟩
    exact hpairwise.forall ha hb hne hx hxb
  · intro h
    exact hl.pairwise_of_forall_ne fun a ha b hb hne x hx hxb => h a ha b hb hne x hx hxb

variable (options : Options) (d : Descriptor)

namespace FieldDescriptor

variable (f : FieldDescriptor)

/-- A field with the deprecated property of a list of messages. -/
def hasDataProperty : Bool := !f.isOneofField options && f.isRepeatedMessage

/-- A field with a mutable getter. -/
def hasMutableGetter : Bool := !f.isOneofField options && f.isPureMessage

/-- A field that a function of its own clears. -/
def hasClear : Bool := !f.isOneofField options && (f.isOptionalField options || f.isPureMessage)

end FieldDescriptor

/-- The properties of a field by their names, that for QML among them. -/
def fieldPropertyNames (f : FieldDescriptor) : List Bytes :=
  (printFieldProperties options d f).map (·.name) ++
    if options.hasQml && f.isPureMessage then [f.propertyName] else []

/-- The member functions of a field. -/
def fieldMembers (f : FieldDescriptor) : List MemberFunction :=
  printFieldGetters options d f ++ printFieldClear options d f ++
    printFieldPrivateGetters options d f

/-- The member functions of a oneof. -/
def oneofMembers (oneof : OneofDescriptor) : List MemberFunction :=
  [MemberFunction.getterOneofFieldNumber oneof.optionalPropertyName,
    MemberFunction.clearOneof oneof.optionalPropertyNameCap]

variable {options d}

/-- A singular message field is no group. -/
theorem isGroupField_of_pure {f : FieldDescriptor} (h : f.isPureMessage = true) :
    f.isGroupField = false := by
  rw [FieldDescriptor.isPureMessage] at h
  simp only [Bool.and_eq_true, beq_iff_eq] at h
  rw [FieldDescriptor.isGroupField, h.1.1.1.1]
  rfl

/-- The properties, ordered by the fields. -/
theorem printProperties_perm : ((printProperties options d).map (·.name)).Perm
    (d.generatedFields.flatMap (fieldPropertyNames options d)) := by
  have hqml : ∀ fields : List FieldDescriptor,
      (fields.filter (·.isPureMessage)).map (·.propertyName) =
        (fields.filter fun f => !f.isGroupField).flatMap fun f =>
          if f.isPureMessage then [f.propertyName] else [] := by
    intro fields
    induction fields with
    | nil => rfl
    | cons f fields ih =>
      cases hpure : f.isPureMessage with
      | true =>
        rw [List.filter_cons_of_pos hpure,
          List.filter_cons_of_pos (by simp [isGroupField_of_pure hpure]), List.map_cons,
          List.flatMap_cons, ih, hpure]
        rfl
      | false =>
        rw [List.filter_cons_of_neg (by simp [hpure]), ih, List.filter_cons]
        split
        · rw [List.flatMap_cons, hpure]
          rfl
        · rfl
  have hnames : (printQmlProperties options d).map (·.name) = d.generatedFields.flatMap fun f =>
      if options.hasQml && f.isPureMessage then [f.propertyName] else [] := by
    rw [printQmlProperties]
    cases hoption : options.hasQml with
    | true =>
      rw [if_pos rfl, List.map_map]
      exact hqml d.fields
    | false => simp
  rw [printProperties, List.map_append, List.map_flatMap, hnames]
  exact List.flatMap_append_perm _ _ _

/-- The member functions, ordered by the fields and the oneofs. -/
theorem memberFunctions_perm : (memberFunctions options d).Perm
    (d.generatedFields.flatMap (fieldMembers options d) ++
      (d.generatedOneofs options).flatMap oneofMembers) := by
  have hfields := (List.flatMap_append_perm d.generatedFields
    (fun f => printFieldGetters options d f ++ printFieldClear options d f)
    (printFieldPrivateGetters options d)).symm.trans
    ((List.flatMap_append_perm d.generatedFields (printFieldGetters options d)
      (printFieldClear options d)).symm.append_right _)
  have honeofs := List.flatMap_append_perm (d.generatedOneofs options)
    (fun oneof => [MemberFunction.getterOneofFieldNumber oneof.optionalPropertyName])
    (fun oneof => [MemberFunction.clearOneof oneof.optionalPropertyNameCap])
  refine List.Perm.trans ?_ (hfields.symm.append honeofs)
  rw [List.perm_iff_count]
  intro member
  simp only [memberFunctions, printGetters, printClearFunctions, printPrivateGetters,
    List.count_append, ← List.map_eq_flatMap]
  omega

/-! ## The members of a field -/

/-- A repeated message is neither a singular nor an optional field. -/
theorem isPureMessage_of_repeated (options : Options) {f : FieldDescriptor}
    (h : f.isRepeatedMessage = true) :
    f.isPureMessage = false ∧ f.isOptionalField options = false := by
  rw [FieldDescriptor.isRepeatedMessage] at h
  simp only [Bool.and_eq_true, beq_iff_eq] at h
  constructor
  · rw [FieldDescriptor.isPureMessage, h.2]
    simp
  · rw [FieldDescriptor.isOptionalField, h.1.1]
    rfl

/-- A field has a property of its value or of a pointer to it, and others by its flags. -/
theorem fieldPropertyNames_eq (f : FieldDescriptor) : fieldPropertyNames options d f =
    (if f.isPureMessage then [f.propertyName ++ ascii "_p"] else [f.propertyName]) ++
    (if f.hasExplicitPresence options then [ascii "has" ++ capitalizeAsciiName f.propertyName]
      else []) ++
    (if f.hasDataProperty options then [f.propertyName ++ ascii "Data"] else []) ++
    (if options.hasQml && f.isPureMessage then [f.propertyName] else []) := by
  rw [fieldPropertyNames, printFieldProperties, FieldDescriptor.hasExplicitPresence,
    FieldDescriptor.hasDataProperty]
  congr 1
  cases honeof : f.isOneofField options with
  | true => cases f.isPureMessage <;> rfl
  | false =>
    cases hrepeated : f.isRepeatedMessage with
    | true =>
      obtain ⟨hpure, hoptional⟩ := isPureMessage_of_repeated options hrepeated
      rw [hpure, hoptional]
      rfl
    | false =>
      cases hoptional : f.isOptionalField options with
      | true =>
        rw [isPureMessage_eq_false options hoptional]
        rfl
      | false => cases f.isPureMessage <;> cases f.isRepeated <;> cases f.isMap <;> rfl

/-- What a field's getters are but for those of its flags. -/
theorem printFieldGetters_eq (f : FieldDescriptor) : printFieldGetters options d f =
    (if f.hasExplicitPresence options then
      [⟨ascii "has" ++ capitalizeAsciiName f.propertyName, true⟩] else []) ++
    [⟨f.propertyName, true⟩] ++
    (if f.hasMutableGetter options then
      [⟨ascii "mut" ++ capitalizeAsciiName f.propertyName, false⟩,
        ⟨ascii "clear" ++ capitalizeAsciiName f.propertyName, false⟩] else []) := by
  rw [printFieldGetters, FieldDescriptor.hasExplicitPresence, FieldDescriptor.hasMutableGetter]
  cases honeof : f.isOneofField options with
  | true => cases f.isPureMessage <;> rfl
  | false =>
    cases hoptional : f.isOptionalField options with
    | true =>
      rw [isPureMessage_eq_false options hoptional]
      rfl
    | false =>
      cases htype : f.type with
      | message => cases f.isPureMessage <;> rfl
      | _ =>
        have hpure : f.isPureMessage = false := by
          rw [FieldDescriptor.isPureMessage, htype]
          rfl
        rw [hpure]
        cases f.isRepeated <;> rfl

/-- The member functions of a field by its flags. -/
theorem fieldMembers_eq (f : FieldDescriptor) : fieldMembers options d f =
    (if f.hasExplicitPresence options then
      [⟨ascii "has" ++ capitalizeAsciiName f.propertyName, true⟩] else []) ++
    [⟨f.propertyName, true⟩] ++
    (if f.hasMutableGetter options then
      [⟨ascii "mut" ++ capitalizeAsciiName f.propertyName, false⟩] else []) ++
    (if f.hasClear options then
      [⟨ascii "clear" ++ capitalizeAsciiName f.propertyName, false⟩] else []) ++
    (if f.hasExplicitPresence options then
      [⟨f.propertyName ++ ascii "_p", !f.isPureMessage⟩] else []) := by
  rw [fieldMembers, printFieldGetters_eq, printFieldClear, printFieldPrivateGetters,
    FieldDescriptor.hasExplicitPresence, FieldDescriptor.hasMutableGetter, FieldDescriptor.hasClear]
  cases honeof : f.isOneofField options with
  | true => cases f.isPureMessage <;> rfl
  | false =>
    cases hoptional : f.isOptionalField options with
    | true =>
      have hcap : (producePropertyMap options f d.type).optionalPropertyNameCap =
          capitalizeAsciiName f.propertyName := by
        simp [producePropertyMap, honeof, hoptional]
      rw [isPureMessage_eq_false options hoptional, hcap]
      rfl
    | false => cases f.isPureMessage <;> rfl

/-- The member functions of a field, one by one. -/
theorem mem_fieldMembers {f : FieldDescriptor} {member : MemberFunction} :
    member ∈ fieldMembers options d f ↔
      (f.hasExplicitPresence options = true ∧
        member = ⟨ascii "has" ++ capitalizeAsciiName f.propertyName, true⟩) ∨
      member = ⟨f.propertyName, true⟩ ∨
      (f.hasMutableGetter options = true ∧
        member = ⟨ascii "mut" ++ capitalizeAsciiName f.propertyName, false⟩) ∨
      (f.hasClear options = true ∧
        member = ⟨ascii "clear" ++ capitalizeAsciiName f.propertyName, false⟩) ∨
      f.hasExplicitPresence options = true ∧
        member = ⟨f.propertyName ++ ascii "_p", !f.isPureMessage⟩ := by
  rw [fieldMembers_eq]
  simp only [List.mem_append, List.mem_ite_nil_right, List.mem_singleton, or_assoc]

/-- The property names of a field, one by one. -/
theorem mem_fieldPropertyNames {f : FieldDescriptor} {name : Bytes} :
    name ∈ fieldPropertyNames options d f ↔
      ((f.isPureMessage = false ∨ options.hasQml = true) ∧ name = f.propertyName) ∨
      (f.isPureMessage = true ∧ name = f.propertyName ++ ascii "_p") ∨
      (f.hasExplicitPresence options = true ∧
        name = ascii "has" ++ capitalizeAsciiName f.propertyName) ∨
      f.hasDataProperty options = true ∧ name = f.propertyName ++ ascii "Data" := by
  rw [fieldPropertyNames_eq]
  cases hpure : f.isPureMessage with
  | true =>
    simp only [if_true, Bool.and_true, List.mem_append, List.mem_ite_nil_right, List.mem_singleton,
      Bool.true_eq_false, false_or, true_and]
    tauto
  | false =>
    simp only [Bool.false_eq_true, if_false, Bool.and_false, List.mem_append,
      List.mem_ite_nil_right, List.mem_singleton, List.not_mem_nil, or_false, true_or, false_and,
      true_and, false_or, or_assoc]

/-- `has` is one of the prefixes. -/
theorem mem_has : ascii "has" ∈ memberPrefixes := by decide

/-- `mut` is one of the prefixes. -/
theorem mem_mut : ascii "mut" ∈ memberPrefixes := by decide

/-- `clear` is one of the prefixes. -/
theorem mem_clear : ascii "clear" ∈ memberPrefixes := by decide

/-- A name is not one with a word in front of itself. -/
theorem propertyName_ne_prefixed (f : FieldDescriptor) {word : Bytes} (hword : word ≠ []) :
    f.propertyName ≠ word ++ capitalizeAsciiName f.propertyName := by
  intro h
  have hlength := congrArg List.length h
  have hpos := List.length_pos_iff.mpr hword
  rw [List.length_append, length_capitalize] at hlength
  omega

/-- No mutable getter is named like a clearing function. -/
theorem mut_ne_clear (name other : Bytes) : ascii "mut" ++ name ≠ ascii "clear" ++ other := by
  intro h
  exact absurd (List.cons.inj h).1 (by decide)

/-- The member functions of one field have names of their own. -/
theorem fieldMembers_nodup {f : FieldDescriptor} (hf : f.IsCamelCase) :
    (fieldMembers options d f).Nodup := by
  have hhas := propertyName_ne_prefixed f (show ascii "has" ≠ [] by decide)
  have hpointer := FieldDescriptor.propertyName_ne_pointer hf hf
  have hhasPointer := FieldDescriptor.prefixed_ne_pointer hf hf mem_has
  have hmutPointer := FieldDescriptor.prefixed_ne_pointer hf hf mem_mut
  have hclearPointer := FieldDescriptor.prefixed_ne_pointer hf hf mem_clear
  have hmutClear := mut_ne_clear (capitalizeAsciiName f.propertyName)
    (capitalizeAsciiName f.propertyName)
  rw [fieldMembers_eq]
  cases f.hasExplicitPresence options <;> cases f.hasMutableGetter options <;>
    cases f.hasClear options <;>
    simp [hhas.symm, hpointer, hhasPointer, hmutPointer, hclearPointer, hmutClear]

/-- The properties of one field have names of their own. -/
theorem fieldPropertyNames_nodup {f : FieldDescriptor} (hf : f.IsCamelCase) :
    (fieldPropertyNames options d f).Nodup := by
  have hhas := propertyName_ne_prefixed f (show ascii "has" ≠ [] by decide)
  have hpointer := FieldDescriptor.propertyName_ne_pointer hf hf
  have hhasPointer := FieldDescriptor.prefixed_ne_pointer hf hf mem_has
  have hdata : f.propertyName ≠ f.propertyName ++ ascii "Data" := by simp [ascii]
  have hflags : f.hasDataProperty options = true →
      f.isPureMessage = false ∧ f.hasExplicitPresence options = false := by
    intro h
    rw [FieldDescriptor.hasDataProperty, Bool.and_eq_true, Bool.not_eq_true'] at h
    obtain ⟨hpure, hoptional⟩ := isPureMessage_of_repeated options h.2
    exact ⟨hpure, by rw [FieldDescriptor.hasExplicitPresence, h.1, hpure, hoptional]; rfl⟩
  rw [fieldPropertyNames_eq]
  cases hproperty : f.hasDataProperty options with
  | true =>
    obtain ⟨hpure, hpresence⟩ := hflags hproperty
    simp [hpure, hpresence, hdata]
  | false =>
    cases f.isPureMessage <;> cases f.hasExplicitPresence options <;> cases options.hasQml <;>
      simp [hhas, hhas.symm, hpointer.symm, hhasPointer.symm]

/-! ## The members of two fields -/

/-- Two fields share no member function just if their camel-case names differ and neither is named
like the function that tells whether the other is set. -/
theorem fieldMembers_disjoint_iff {f g : FieldDescriptor} (hf : f.IsCamelCase) (hg : g.IsCamelCase) :
    (∀ member ∈ fieldMembers options d f, member ∉ fieldMembers options d g) ↔
      f.camelcaseName ≠ g.camelcaseName ∧
      (g.hasExplicitPresence options = true →
        f.propertyName ≠ ascii "has" ++ capitalizeAsciiName g.propertyName) ∧
      (f.hasExplicitPresence options = true →
        g.propertyName ≠ ascii "has" ++ capitalizeAsciiName f.propertyName) := by
  constructor
  · intro h
    refine ⟨?_, ?_, ?_⟩
    · intro hname
      rw [← FieldDescriptor.propertyName_inj hf hg] at hname
      exact h _ (mem_fieldMembers.mpr (Or.inr (Or.inl rfl)))
        (mem_fieldMembers.mpr (Or.inr (Or.inl (by rw [hname]))))
    · intro hpresence hname
      exact h _ (mem_fieldMembers.mpr (Or.inr (Or.inl rfl)))
        (mem_fieldMembers.mpr (Or.inl ⟨hpresence, by rw [hname]⟩))
    · intro hpresence hname
      exact h _ (mem_fieldMembers.mpr (Or.inl ⟨hpresence, rfl⟩))
        (mem_fieldMembers.mpr (Or.inr (Or.inl (by rw [hname]))))
  · rintro ⟨hnames, hforth, hback⟩ member hmember hother
    have hname := (FieldDescriptor.propertyName_inj hf hg).not.mpr hnames
    have hprefixed := fun word => (FieldDescriptor.prefixed_inj hf hg word).not.mpr hnames
    have hpointers : f.propertyName ++ ascii "_p" ≠ g.propertyName ++ ascii "_p" := by
      rwa [ne_eq, List.append_cancel_right_eq]
    have hpointer := FieldDescriptor.propertyName_ne_pointer hf hg
    have hpointer' := FieldDescriptor.propertyName_ne_pointer hg hf
    rcases mem_fieldMembers.mp hmember with ⟨hpresence, rfl⟩ | rfl | ⟨-, rfl⟩ | ⟨-, rfl⟩ | ⟨-, rfl⟩
    · have hhas := FieldDescriptor.prefixed_ne_pointer hf hg mem_has
      simp [mem_fieldMembers, hprefixed, hback hpresence |>.symm, hhas] at hother
    · simp [mem_fieldMembers, hname, hpointer] at hother
      exact hforth hother.1 hother.2
    · have hmut := FieldDescriptor.prefixed_ne_pointer hf hg mem_mut
      simp [mem_fieldMembers, hprefixed, mut_ne_clear, hmut] at hother
    · have hclear := FieldDescriptor.prefixed_ne_pointer hf hg mem_clear
      simp [mem_fieldMembers, hprefixed, (mut_ne_clear _ _).symm, hclear] at hother
    · have hhas := FieldDescriptor.prefixed_ne_pointer hg hf mem_has
      have hmut := FieldDescriptor.prefixed_ne_pointer hg hf mem_mut
      have hclear := FieldDescriptor.prefixed_ne_pointer hg hf mem_clear
      simp [mem_fieldMembers, hpointer'.symm, hhas.symm, hmut.symm, hclear.symm, hpointers] at hother

/-- Fields whose member functions differ share no property just if the deprecated property of
neither list is named like a property of the other. -/
theorem fieldPropertyNames_disjoint_iff {f g : FieldDescriptor} (hf : f.IsCamelCase)
    (hg : g.IsCamelCase)
    (hmembers : ∀ member ∈ fieldMembers options d f, member ∉ fieldMembers options d g) :
    (∀ name ∈ fieldPropertyNames options d f, name ∉ fieldPropertyNames options d g) ↔
      (g.hasDataProperty options = true →
        ((f.isPureMessage = false ∨ options.hasQml = true) →
          f.propertyName ≠ g.propertyName ++ ascii "Data") ∧
        (f.hasExplicitPresence options = true →
          ascii "has" ++ capitalizeAsciiName f.propertyName ≠ g.propertyName ++ ascii "Data")) ∧
      (f.hasDataProperty options = true →
        ((g.isPureMessage = false ∨ options.hasQml = true) →
          g.propertyName ≠ f.propertyName ++ ascii "Data") ∧
        (g.hasExplicitPresence options = true →
          ascii "has" ++ capitalizeAsciiName g.propertyName ≠ f.propertyName ++ ascii "Data")) := by
  obtain ⟨hnames, hforth, hback⟩ := (fieldMembers_disjoint_iff hf hg).mp hmembers
  constructor
  · intro h
    refine ⟨fun hdata => ⟨?_, ?_⟩, fun hdata => ⟨?_, ?_⟩⟩
    · intro hvalue hname
      exact h _ (mem_fieldPropertyNames.mpr (Or.inl ⟨hvalue, rfl⟩))
        (mem_fieldPropertyNames.mpr (Or.inr (Or.inr (Or.inr ⟨hdata, hname⟩))))
    · intro hpresence hname
      exact h _ (mem_fieldPropertyNames.mpr (Or.inr (Or.inr (Or.inl ⟨hpresence, rfl⟩))))
        (mem_fieldPropertyNames.mpr (Or.inr (Or.inr (Or.inr ⟨hdata, hname⟩))))
    · intro hvalue hname
      exact h _ (mem_fieldPropertyNames.mpr (Or.inr (Or.inr (Or.inr ⟨hdata, rfl⟩))))
        (mem_fieldPropertyNames.mpr (Or.inl ⟨hvalue, hname.symm⟩))
    · intro hpresence hname
      exact h _ (mem_fieldPropertyNames.mpr (Or.inr (Or.inr (Or.inr ⟨hdata, rfl⟩))))
        (mem_fieldPropertyNames.mpr (Or.inr (Or.inr (Or.inl ⟨hpresence, hname.symm⟩))))
  · rintro ⟨hdata, hdata'⟩ name hname hother
    have hvalues := (FieldDescriptor.propertyName_inj hf hg).not.mpr hnames
    have hprefixed := fun word => (FieldDescriptor.prefixed_inj hf hg word).not.mpr hnames
    have hpointer := FieldDescriptor.propertyName_ne_pointer hf hg
    have hpointer' := FieldDescriptor.propertyName_ne_pointer hg hf
    have hhas := FieldDescriptor.prefixed_ne_pointer hf hg mem_has
    have hhas' := FieldDescriptor.prefixed_ne_pointer hg hf mem_has
    have hlist := FieldDescriptor.pointer_ne_data hf hg
    have hlist' := FieldDescriptor.pointer_ne_data hg hf
    rcases mem_fieldPropertyNames.mp hname with ⟨hvalue, rfl⟩ | ⟨-, rfl⟩ | ⟨hpresence, rfl⟩ | ⟨hlists, rfl⟩
    · simp only [mem_fieldPropertyNames, hvalues, hpointer, and_false, false_or] at hother
      rcases hother with ⟨hpresence, heq⟩ | ⟨hlists, heq⟩
      · exact hforth hpresence heq
      · exact (hdata hlists).1 hvalue heq
    · simp [mem_fieldPropertyNames, hvalues, hpointer'.symm, hhas'.symm, hlist] at hother
    · simp only [mem_fieldPropertyNames, hprefixed, hhas, and_false, false_or] at hother
      rcases hother with ⟨-, heq⟩ | ⟨hlists, heq⟩
      · exact hback hpresence heq.symm
      · exact (hdata hlists).2 hpresence heq
    · simp only [mem_fieldPropertyNames, hlist'.symm, and_false, false_or,
        List.append_cancel_right_eq, hvalues, or_false] at hother
      rcases hother with ⟨hvalue, heq⟩ | ⟨hpresence, heq⟩
      · exact (hdata' hlists).1 hvalue heq.symm
      · exact (hdata' hlists).2 hpresence heq.symm

/-! ## The members of oneofs -/

/-- No name that ends in `_p` ends in `Field`. -/
theorem pointer_ne_field (name other : Bytes) : name ++ ascii "_p" ≠ other ++ ascii "Field" := by
  intro h
  have hlast := congrArg List.getLast? h
  rw [List.getLast?_append_of_ne_nil _ (by decide), List.getLast?_append_of_ne_nil _ (by decide)]
    at hlast
  exact absurd hlast (by decide)

/-- When a field and a oneof share no member function. -/
theorem fieldMembers_oneofMembers_iff {f : FieldDescriptor} {oneof : OneofDescriptor} :
    (∀ member ∈ fieldMembers options d f, member ∉ oneofMembers oneof) ↔
      f.propertyName ≠ oneof.optionalPropertyName ++ ascii "Field" ∧
      (f.hasExplicitPresence options = true →
        ascii "has" ++ capitalizeAsciiName f.propertyName ≠
          oneof.optionalPropertyName ++ ascii "Field") ∧
      (f.hasClear options = true →
        capitalizeAsciiName f.propertyName ≠ oneof.optionalPropertyNameCap) ∧
      (f.isPureMessage = true →
        f.propertyName ++ ascii "_p" ≠ ascii "clear" ++ oneof.optionalPropertyNameCap) := by
  have hpresence : f.isPureMessage = true → f.hasExplicitPresence options = true := by
    intro hpure
    rw [FieldDescriptor.hasExplicitPresence, hpure, Bool.or_true]
  simp only [mem_fieldMembers, oneofMembers, MemberFunction.getterOneofFieldNumber,
    MemberFunction.clearOneof, List.mem_cons, List.not_mem_nil, or_false, not_or]
  constructor
  · intro h
    refine ⟨?_, ?_, ?_, ?_⟩
    · intro hname
      exact (h _ (Or.inr (Or.inl rfl))).1 (by rw [hname])
    · intro hset hname
      exact (h _ (Or.inl ⟨hset, rfl⟩)).1 (by rw [hname])
    · intro hclear hname
      exact (h _ (Or.inr (Or.inr (Or.inr (Or.inl ⟨hclear, rfl⟩))))).2 (by rw [hname])
    · intro hpure hname
      exact (h _ (Or.inr (Or.inr (Or.inr (Or.inr ⟨hpresence hpure, rfl⟩))))).2
        (by rw [hname, hpure]; rfl)
  · rintro ⟨hgetter, hhas, hclear, hpointer⟩ member hmember
    rcases hmember with ⟨hset, rfl⟩ | rfl | ⟨-, rfl⟩ | ⟨hclears, rfl⟩ | ⟨-, rfl⟩
    · simp [hhas hset]
    · simp [hgetter]
    · simp [mut_ne_clear]
    · simp [hclear hclears]
    · refine ⟨by simp [pointer_ne_field], ?_⟩
      cases hpure : f.isPureMessage with
      | true => simp [hpointer hpure]
      | false => simp

/-- The oneofs have member functions of their own just if their names differ in both forms. -/
theorem oneofMembers_nodup_iff {oneofs : List OneofDescriptor} :
    (oneofs.flatMap oneofMembers).Nodup ↔ (oneofs.map (·.optionalPropertyName)).Nodup ∧
      (oneofs.map (·.optionalPropertyNameCap)).Nodup := by
  have hperm := List.flatMap_append_perm oneofs
    (fun oneof => [MemberFunction.getterOneofFieldNumber oneof.optionalPropertyName])
    (fun oneof => [MemberFunction.clearOneof oneof.optionalPropertyNameCap])
  have hnodup := hperm.nodup_iff
  rw [← List.map_eq_flatMap, ← List.map_eq_flatMap] at hnodup
  have hgetters : (oneofs.map fun oneof =>
      MemberFunction.getterOneofFieldNumber oneof.optionalPropertyName).Nodup ↔
      (oneofs.map (·.optionalPropertyName)).Nodup := by
    have hinj : Function.Injective MemberFunction.getterOneofFieldNumber := by
      intro name other h
      exact List.append_cancel_right (MemberFunction.mk.inj h).1
    rw [← List.nodup_map_iff hinj, List.map_map]
    rfl
  have hclears : (oneofs.map fun oneof =>
      MemberFunction.clearOneof oneof.optionalPropertyNameCap).Nodup ↔
      (oneofs.map (·.optionalPropertyNameCap)).Nodup := by
    have hinj : Function.Injective MemberFunction.clearOneof := by
      intro name other h
      exact List.append_cancel_left (MemberFunction.mk.inj h).1
    rw [← List.nodup_map_iff hinj, List.map_map]
    rfl
  rw [← hgetters, ← hclears]
  refine Iff.trans hnodup.symm ?_
  rw [List.nodup_append']
  refine and_congr_right fun _ => and_iff_left ?_
  intro member hgetter hclear
  obtain ⟨oneof, -, rfl⟩ := List.mem_map.mp hgetter
  obtain ⟨other, -, hother⟩ := List.mem_map.mp hclear
  exact Bool.false_ne_true (MemberFunction.mk.inj hother).2

/-! ## Messages -/

variable (options d)

/-- No two properties of a message have one name, neither have two member functions without
parameters, and no mutable getter is named like a getter. -/
structure Descriptor.MembersDistinct : Prop where
  properties : ((printProperties options d).map (·.name)).Nodup
  functions : (memberFunctions options d).Nodup
  mutableGetters : ∀ f ∈ d.generatedFields, ∀ g ∈ d.generatedFields,
    f.hasMutableGetter options = true →
      (producePropertyMap options f d.type).mutableGetterName ≠
        (producePropertyMap options g d.type).propertyName

/-- A name as it is escaped. -/
def escaped (name : Bytes) : Bytes := name ++ reservedSuffix name

/-- The camel-case names of the fields, and those of the oneofs, that lead to no clash. -/
structure Descriptor.NamesApart : Prop where
  fields : ∀ f ∈ d.generatedFields, ∀ g ∈ d.generatedFields, f ≠ g →
    f.camelcaseName ≠ g.camelcaseName
  has : ∀ f ∈ d.generatedFields, ∀ g ∈ d.generatedFields, g.hasExplicitPresence options = true →
    isReserved g.camelcaseName = false →
      f.camelcaseName ≠ ascii "has" ++ capitalizeAsciiName g.camelcaseName
  data : ∀ f ∈ d.generatedFields, ∀ g ∈ d.generatedFields,
    (f.isPureMessage = false ∨ options.hasQml = true) → g.hasDataProperty options = true →
    isReserved g.camelcaseName = false → f.camelcaseName ≠ g.camelcaseName ++ ascii "Data"
  hasData : ∀ f ∈ d.generatedFields, ∀ g ∈ d.generatedFields, f.hasExplicitPresence options = true →
    g.hasDataProperty options = true → isReserved g.camelcaseName = false →
    isReserved f.camelcaseName = false →
      ascii "has" ++ capitalizeAsciiName f.camelcaseName ≠ g.camelcaseName ++ ascii "Data"
  mutableGetters : ∀ f ∈ d.generatedFields, ∀ g ∈ d.generatedFields,
    f.hasMutableGetter options = true → isReserved f.camelcaseName = false →
      g.camelcaseName ≠ ascii "mut" ++ capitalizeAsciiName f.camelcaseName
  oneofGetter : ∀ f ∈ d.generatedFields, ∀ oneof ∈ d.generatedOneofs options,
    escaped f.camelcaseName ≠ escaped oneof.name.text ++ ascii "Field"
  oneofHas : ∀ f ∈ d.generatedFields, ∀ oneof ∈ d.generatedOneofs options,
    f.hasExplicitPresence options = true →
      ascii "has" ++ capitalizeAsciiName (escaped f.camelcaseName) ≠
        escaped oneof.name.text ++ ascii "Field"
  oneofClear : ∀ f ∈ d.generatedFields, ∀ oneof ∈ d.generatedOneofs options,
    f.hasClear options = true →
      capitalizeAsciiName (escaped f.camelcaseName) ≠ capitalizeAsciiName oneof.name.text
  oneofPointer : ∀ f ∈ d.generatedFields, ∀ oneof ∈ d.generatedOneofs options,
    f.isPureMessage = true →
      escaped f.camelcaseName ++ ascii "_p" ≠ ascii "clear" ++ capitalizeAsciiName oneof.name.text
  oneofs : ((d.generatedOneofs options).map fun oneof => escaped oneof.name.text).Nodup
  oneofCaps : ((d.generatedOneofs options).map fun oneof =>
    capitalizeAsciiName oneof.name.text).Nodup

variable {options d}

/-- A oneof's property has the escaped name of the oneof. -/
theorem optionalPropertyName_eq (oneof : OneofDescriptor) :
    oneof.optionalPropertyName = escaped oneof.name.text := qualifiedName_eq _

/-- No field is generated twice. -/
theorem generatedFields_nodup : d.generatedFields.Nodup := List.Nodup.of_map _ d.numbers_generatedFields

/-- Whether the member functions of all fields and oneofs have names of their own. -/
theorem memberFunctions_nodup_iff (hcamel : ∀ f ∈ d.generatedFields, f.IsCamelCase) :
    (memberFunctions options d).Nodup ↔
      (∀ f ∈ d.generatedFields, ∀ g ∈ d.generatedFields, f ≠ g →
        ∀ member ∈ fieldMembers options d f, member ∉ fieldMembers options d g) ∧
      (∀ f ∈ d.generatedFields, ∀ oneof ∈ d.generatedOneofs options,
        ∀ member ∈ fieldMembers options d f, member ∉ oneofMembers oneof) ∧
      ((d.generatedOneofs options).map (·.optionalPropertyName)).Nodup ∧
        ((d.generatedOneofs options).map (·.optionalPropertyNameCap)).Nodup := by
  rw [memberFunctions_perm.nodup_iff, List.nodup_append', nodup_flatMap_iff generatedFields_nodup,
    oneofMembers_nodup_iff]
  constructor
  · rintro ⟨⟨-, hfields⟩, honeofs, hdisjoint⟩
    refine ⟨hfields, ?_, honeofs⟩
    intro f hf oneof honeof member hmember hother
    exact hdisjoint (List.mem_flatMap.mpr ⟨f, hf, hmember⟩)
      (List.mem_flatMap.mpr ⟨oneof, honeof, hother⟩)
  · rintro ⟨hfields, hboth, honeofs⟩
    refine ⟨⟨fun f hf => fieldMembers_nodup (hcamel f hf), hfields⟩, honeofs, ?_⟩
    intro member hfield honeof
    obtain ⟨f, hf, hmember⟩ := List.mem_flatMap.mp hfield
    obtain ⟨oneof, honeof, hother⟩ := List.mem_flatMap.mp honeof
    exact hboth f hf oneof honeof member hmember hother

/-- The printed property names are distinct exactly when no two fields share one. -/
theorem printProperties_nodup_iff (hcamel : ∀ f ∈ d.generatedFields, f.IsCamelCase) :
    ((printProperties options d).map (·.name)).Nodup ↔
      ∀ f ∈ d.generatedFields, ∀ g ∈ d.generatedFields, f ≠ g →
        ∀ name ∈ fieldPropertyNames options d f, name ∉ fieldPropertyNames options d g := by
  rw [printProperties_perm.nodup_iff, nodup_flatMap_iff generatedFields_nodup]
  exact and_iff_right fun f hf => fieldPropertyNames_nodup (hcamel f hf)

/-- A name is not one with a word in front of itself. -/
theorem camelcaseName_ne_prefixed (f : FieldDescriptor) {word : Bytes} (hword : word ≠ []) :
    f.camelcaseName ≠ word ++ capitalizeAsciiName f.camelcaseName := by
  intro h
  have hlength := congrArg List.length h
  have hpos := List.length_pos_iff.mpr hword
  rw [List.length_append, length_capitalize] at hlength
  omega

/-- A list of messages tells nothing about whether it is set. -/
theorem hasExplicitPresence_of_data {f : FieldDescriptor} (h : f.hasDataProperty options = true) :
    f.hasExplicitPresence options = false := by
  rw [FieldDescriptor.hasDataProperty, Bool.and_eq_true, Bool.not_eq_true'] at h
  obtain ⟨hpure, hoptional⟩ := isPureMessage_of_repeated options h.2
  rw [FieldDescriptor.hasExplicitPresence, h.1, hpure, hoptional]
  rfl

/-- Members that are distinct come from names that are apart. -/
theorem Descriptor.MembersDistinct.namesApart (hcamel : ∀ f ∈ d.generatedFields, f.IsCamelCase)
    (h : d.MembersDistinct options) : d.NamesApart options := by
  obtain ⟨hfields, hboth, honeofs, hcaps⟩ := (memberFunctions_nodup_iff hcamel).mp h.functions
  have hproperties := (printProperties_nodup_iff hcamel).mp h.properties
  have hpair := fun f hf g hg hne =>
    (fieldMembers_disjoint_iff (hcamel f hf) (hcamel g hg)).mp (hfields f hf g hg hne)
  have hlists := fun f hf g hg hne =>
    (fieldPropertyNames_disjoint_iff (hcamel f hf) (hcamel g hg) (hfields f hf g hg hne)).mp
      (hproperties f hf g hg hne)
  have honeof := fun f hf oneof ho => fieldMembers_oneofMembers_iff.mp (hboth f hf oneof ho)
  have hescaped : ∀ f ∈ d.generatedFields, f.propertyName = escaped f.camelcaseName :=
    fun f hf => (hcamel f hf).propertyName_eq
  refine ⟨?_, ?_, ?_, ?_, ?_, ?_, ?_, ?_, ?_, ?_, hcaps⟩
  · exact fun f hf g hg hne => (hpair f hf g hg hne).1
  · intro f hf g hg hpresence hreserved hname
    by_cases hne : f = g
    · rw [hne] at hname
      exact camelcaseName_ne_prefixed g (by decide) hname
    · exact (hpair f hf g hg hne).2.1 hpresence
        ((FieldDescriptor.propertyName_eq_prefixed_iff (hcamel f hf) (hcamel g hg) mem_has).mpr
          ⟨hreserved, hname⟩)
  · intro f hf g hg hvalue hdata hreserved hname
    by_cases hne : f = g
    · rw [hne] at hname
      simp [ascii] at hname
    · exact ((hlists f hf g hg hne).1 hdata).1 hvalue
        ((FieldDescriptor.propertyName_eq_data_iff (hcamel f hf) (hcamel g hg)).mpr
          ⟨hreserved, hname⟩)
  · intro f hf g hg hpresence hdata hreserved hreserved' hname
    by_cases hne : f = g
    · rw [hne, hasExplicitPresence_of_data hdata] at hpresence
      cases hpresence
    · exact ((hlists f hf g hg hne).1 hdata).2 hpresence
        ((FieldDescriptor.prefixed_eq_data_iff (hcamel f hf) (hcamel g hg) mem_has).mpr
          ⟨hreserved, hreserved', hname⟩)
  · intro f hf g hg hmutable hreserved hname
    exact h.mutableGetters f hf g hg hmutable
      ((FieldDescriptor.propertyName_eq_prefixed_iff (hcamel g hg) (hcamel f hf) mem_mut).mpr
        ⟨hreserved, hname⟩).symm
  · intro f hf oneof ho
    rw [← hescaped f hf, ← optionalPropertyName_eq]
    exact (honeof f hf oneof ho).1
  · intro f hf oneof ho
    rw [← hescaped f hf, ← optionalPropertyName_eq]
    exact (honeof f hf oneof ho).2.1
  · intro f hf oneof ho
    rw [← hescaped f hf]
    exact (honeof f hf oneof ho).2.2.1
  · intro f hf oneof ho
    rw [← hescaped f hf]
    exact (honeof f hf oneof ho).2.2.2
  · simpa only [optionalPropertyName_eq] using honeofs

/-- Names that are apart lead to distinct members. -/
theorem Descriptor.NamesApart.membersDistinct (hcamel : ∀ f ∈ d.generatedFields, f.IsCamelCase)
    (h : d.NamesApart options) : d.MembersDistinct options := by
  have hescaped : ∀ f ∈ d.generatedFields, f.propertyName = escaped f.camelcaseName :=
    fun f hf => (hcamel f hf).propertyName_eq
  have hhas : ∀ f ∈ d.generatedFields, ∀ g ∈ d.generatedFields,
      g.hasExplicitPresence options = true →
        f.propertyName ≠ ascii "has" ++ capitalizeAsciiName g.propertyName := by
    intro f hf g hg hpresence hname
    obtain ⟨hreserved, hcamelNames⟩ := (FieldDescriptor.propertyName_eq_prefixed_iff (hcamel f hf)
      (hcamel g hg) mem_has).mp hname
    exact h.has f hf g hg hpresence hreserved hcamelNames
  have hfields : ∀ f ∈ d.generatedFields, ∀ g ∈ d.generatedFields, f ≠ g →
      ∀ member ∈ fieldMembers options d f, member ∉ fieldMembers options d g := fun f hf g hg hne =>
    (fieldMembers_disjoint_iff (hcamel f hf) (hcamel g hg)).mpr
      ⟨h.fields f hf g hg hne, hhas f hf g hg, hhas g hg f hf⟩
  have hdata : ∀ f ∈ d.generatedFields, ∀ g ∈ d.generatedFields, g.hasDataProperty options = true →
      ((f.isPureMessage = false ∨ options.hasQml = true) →
        f.propertyName ≠ g.propertyName ++ ascii "Data") ∧
      (f.hasExplicitPresence options = true →
        ascii "has" ++ capitalizeAsciiName f.propertyName ≠ g.propertyName ++ ascii "Data") := by
    intro f hf g hg hlist
    constructor
    · intro hvalue hname
      obtain ⟨hreserved, hcamelNames⟩ :=
        (FieldDescriptor.propertyName_eq_data_iff (hcamel f hf) (hcamel g hg)).mp hname
      exact h.data f hf g hg hvalue hlist hreserved hcamelNames
    · intro hpresence hname
      obtain ⟨hreserved, hreserved', hcamelNames⟩ :=
        (FieldDescriptor.prefixed_eq_data_iff (hcamel f hf) (hcamel g hg) mem_has).mp hname
      exact h.hasData f hf g hg hpresence hlist hreserved hreserved' hcamelNames
  refine ⟨?_, ?_, ?_⟩
  · rw [printProperties_nodup_iff hcamel]
    exact fun f hf g hg hne => (fieldPropertyNames_disjoint_iff (hcamel f hf) (hcamel g hg)
      (hfields f hf g hg hne)).mpr ⟨hdata f hf g hg, hdata g hg f hf⟩
  · rw [memberFunctions_nodup_iff hcamel]
    refine ⟨hfields, ?_, ?_, h.oneofCaps⟩
    · intro f hf oneof ho
      rw [fieldMembers_oneofMembers_iff, optionalPropertyName_eq, hescaped f hf]
      exact ⟨h.oneofGetter f hf oneof ho, h.oneofHas f hf oneof ho, h.oneofClear f hf oneof ho,
        h.oneofPointer f hf oneof ho⟩
    · simpa only [optionalPropertyName_eq] using h.oneofs
  · intro f hf g hg hmutable hname
    obtain ⟨hreserved, hcamelNames⟩ := (FieldDescriptor.propertyName_eq_prefixed_iff (hcamel g hg)
      (hcamel f hf) mem_mut).mp hname.symm
    exact h.mutableGetters f hf g hg hmutable hreserved hcamelNames

/-! ## The reported conflict -/

/-- The name of a field's mutable getter. -/
def FieldDescriptor.mutableGetterName (f : FieldDescriptor) : Bytes :=
  mutableGetterPrefix ++ capitalizeAsciiName f.propertyName

/-- What the check finds wrong with a field behind another one. -/
def MutClash (f g : FieldDescriptor) : Prop :=
  g.mutableGetterName = f.mutableGetterName ∨ g.propertyName = f.mutableGetterName ∨
    mutableGetterPrefix.isPrefixOf f.propertyName = true ∧
      (g.mutableGetterName = f.propertyName ∨ g.propertyName = f.propertyName)

/-- A clash is reported by a text that is not empty. -/
theorem mutFieldsClash_ne_nil (f : FieldDescriptor) : mutFieldsClash d f ≠ [] := by
  rw [mutFieldsClash]
  exact List.append_ne_nil_of_right_ne_nil _ (by decide)

/-- The check goes through the message fields with the names of those before. -/
theorem checkMutableGetters_eq_nil_iff {names : List Bytes} {error : Bytes}
    {fields : List FieldDescriptor} : checkMutableGetters options d names error fields = [] ↔
      error = [] ∧
      (∀ f ∈ fields.filter (·.isPureMessage),
        f.mutableGetterName ∉ names ∧ f.propertyName ∉ names) ∧
      (fields.filter (·.isPureMessage)).Pairwise fun f g => ¬ MutClash f g := by
  induction fields generalizing names error with
  | nil => simp [checkMutableGetters]
  | cons f fields ih =>
    rw [checkMutableGetters]
    cases hpure : f.isPureMessage with
    | false =>
      rw [if_neg Bool.false_ne_true, List.filter_cons_of_neg (by simp [hpure])]
      exact ih
    | true =>
      rw [if_pos rfl, List.filter_cons_of_pos (by simp [hpure]), List.forall_mem_cons,
        List.pairwise_cons, ih]
      have herror : (if names.contains f.mutableGetterName || names.contains f.propertyName then
          mutFieldsClash d f else error) = [] ↔
          error = [] ∧ f.mutableGetterName ∉ names ∧ f.propertyName ∉ names := by
        by_cases hfound : (names.contains f.mutableGetterName ||
            names.contains f.propertyName) = true
        · rw [if_pos hfound]
          rw [Bool.or_eq_true, List.contains_iff_mem, List.contains_iff_mem] at hfound
          refine iff_of_false (mutFieldsClash_ne_nil f) ?_
          rintro ⟨-, hgetter, hname⟩
          exact hfound.elim hgetter hname
        · rw [if_neg hfound]
          rw [Bool.or_eq_true, List.contains_iff_mem, List.contains_iff_mem, not_or] at hfound
          exact (and_iff_left hfound).symm
      have hmem : ∀ name : Bytes,
          name ∈ (if mutableGetterPrefix.isPrefixOf f.propertyName then
            f.propertyName :: f.mutableGetterName :: names else f.mutableGetterName :: names) ↔
          name = f.mutableGetterName ∨
            (mutableGetterPrefix.isPrefixOf f.propertyName = true ∧ name = f.propertyName) ∨
            name ∈ names := by
        intro name
        by_cases hstarts : mutableGetterPrefix.isPrefixOf f.propertyName = true
        · rw [if_pos hstarts, List.mem_cons, List.mem_cons, and_iff_right hstarts]
          exact or_left_comm
        · rw [if_neg hstarts, List.mem_cons]
          simp [hstarts]
      have hlater : ∀ g : FieldDescriptor,
          (g.mutableGetterName ∉ (if mutableGetterPrefix.isPrefixOf f.propertyName then
              f.propertyName :: f.mutableGetterName :: names else f.mutableGetterName :: names) ∧
            g.propertyName ∉ (if mutableGetterPrefix.isPrefixOf f.propertyName then
              f.propertyName :: f.mutableGetterName :: names else f.mutableGetterName :: names)) ↔
          ¬ MutClash f g ∧ g.mutableGetterName ∉ names ∧ g.propertyName ∉ names := by
        intro g
        rw [hmem, hmem, MutClash]
        grind
      refine Iff.trans (and_congr herror (and_congr_left fun _ =>
        forall₂_congr fun g _ => hlater g)) ?_
      constructor
      · rintro ⟨⟨herror, hown⟩, hothers, hpairwise⟩
        exact ⟨herror, ⟨hown, fun g hg => (hothers g hg).2⟩, fun g hg => (hothers g hg).1, hpairwise⟩
      · rintro ⟨herror, ⟨hown, hothers⟩, hclash, hpairwise⟩
        exact ⟨⟨herror, hown⟩, fun g hg => ⟨hclash g hg, hothers g hg⟩, hpairwise⟩

/-- Two message fields of one message that the check tells from each other by no name. -/
def Descriptor.MutConflict (d : Descriptor) : Prop :=
  ∃ f ∈ d.generatedFields, ∃ g ∈ d.generatedFields, f ≠ g ∧ f.isPureMessage = true ∧
    g.isPureMessage = true ∧ (f.camelcaseName = g.camelcaseName ∨ isReserved f.camelcaseName = false ∧
      g.camelcaseName = ascii "mut" ++ capitalizeAsciiName f.camelcaseName)

/-- The names in which two message fields clash. -/
theorem mutClash_iff {f g : FieldDescriptor} (hf : f.IsCamelCase) (hg : g.IsCamelCase) :
    MutClash f g ↔ f.camelcaseName = g.camelcaseName ∨
      (isReserved f.camelcaseName = false ∧
        g.camelcaseName = ascii "mut" ++ capitalizeAsciiName f.camelcaseName) ∨
      (isReserved g.camelcaseName = false ∧
        f.camelcaseName = ascii "mut" ++ capitalizeAsciiName g.camelcaseName) := by
  have hgetters : g.mutableGetterName = f.mutableGetterName ↔ f.camelcaseName = g.camelcaseName :=
    eq_comm.trans (FieldDescriptor.prefixed_inj hf hg (ascii "mut"))
  have hforth := FieldDescriptor.propertyName_eq_prefixed_iff hg hf mem_mut
  have hback := FieldDescriptor.propertyName_eq_prefixed_iff hf hg mem_mut
  have hnames := (FieldDescriptor.propertyName_inj hf hg).symm.trans eq_comm
  have hstarts : g.mutableGetterName = f.propertyName →
      mutableGetterPrefix.isPrefixOf f.propertyName = true := by
    intro h
    rw [← h]
    exact List.isPrefixOf_iff_prefix.mpr (List.prefix_append _ _)
  rw [MutClash, hgetters, ← hback, ← hforth, hnames]
  constructor
  · rintro (h | h | ⟨-, h | h⟩)
    · exact Or.inl h
    · exact Or.inr (Or.inl h)
    · exact Or.inr (Or.inr h.symm)
    · exact Or.inl h
  · rintro (h | h | h)
    · exact Or.inl h
    · exact Or.inr (Or.inl h)
    · exact Or.inr (Or.inr ⟨hstarts h.symm, Or.inl h.symm⟩)

/-- No two message fields clash exactly when the check reports none. -/
theorem pairwise_mutClash_iff (hcamel : ∀ f ∈ d.generatedFields, f.IsCamelCase) :
    ((d.generatedFields.filter (·.isPureMessage)).Pairwise fun f g => ¬ MutClash f g) ↔
      ¬ d.MutConflict := by
  constructor
  · rintro hpairwise ⟨f, hf, g, hg, hne, hfPure, hgPure, hclash⟩
    have hsymm : (d.generatedFields.filter (·.isPureMessage)).Pairwise
        fun f g => ¬ MutClash f g ∧ ¬ MutClash g f := by
      refine hpairwise.imp_of_mem ?_
      intro a b ha hb hab
      refine ⟨hab, fun hba => hab ?_⟩
      have haCamel := hcamel a (List.mem_of_mem_filter ha)
      have hbCamel := hcamel b (List.mem_of_mem_filter hb)
      rw [mutClash_iff hbCamel haCamel] at hba
      rw [mutClash_iff haCamel hbCamel]
      exact hba.imp Eq.symm Or.symm
    have hrelation : Std.Symm fun f g => ¬ MutClash f g ∧ ¬ MutClash g f :=
      ⟨fun _ _ h => And.symm h⟩
    have hfiltered := hsymm.forall (List.mem_filter.mpr ⟨hf, hfPure⟩)
      (List.mem_filter.mpr ⟨hg, hgPure⟩) hne
    apply hfiltered.1
    rw [mutClash_iff (hcamel f hf) (hcamel g hg)]
    exact hclash.imp_right Or.inl
  · intro hnone
    refine (generatedFields_nodup.filter _).pairwise_of_forall_ne ?_
    intro f hf g hg hne hclash
    obtain ⟨hfMem, hfPure⟩ := List.mem_filter.mp hf
    obtain ⟨hgMem, hgPure⟩ := List.mem_filter.mp hg
    rw [mutClash_iff (hcamel f hfMem) (hcamel g hgMem)] at hclash
    rcases hclash with h | h | h
    · exact hnone ⟨f, hfMem, g, hgMem, hne, hfPure, hgPure, Or.inl h⟩
    · exact hnone ⟨f, hfMem, g, hgMem, hne, hfPure, hgPure, Or.inr h⟩
    · exact hnone ⟨g, hgMem, f, hfMem, hne.symm, hgPure, hfPure, Or.inr h⟩

/-- Only messages of the list are checked. -/
theorem mem_messages_of_checked {messages : List Descriptor} {d : Descriptor}
    (h : d ∈ checkedMessages messages) : d ∈ messages := by
  rw [checkedMessages] at h
  obtain ⟨outer, houter, hd⟩ := List.mem_flatMap.mp h
  rcases List.mem_cons.mp hd with rfl | hnested
  · exact List.mem_of_mem_filter houter
  · exact List.mem_of_mem_filter hnested

/-- A conflict is reported just if there is one in a message that is checked. -/
theorem mutFieldsClashError_eq_nil_iff {messages : List Descriptor}
    (hcamel : ∀ d ∈ messages, ∀ f ∈ d.generatedFields, f.IsCamelCase) :
    mutFieldsClashError options messages = [] ↔ ∀ d ∈ checkedMessages messages, ¬ d.MutConflict := by
  have hfold : ∀ (checked : List Descriptor) (error : Bytes),
      (∀ d ∈ checked, ∀ f ∈ d.generatedFields, f.IsCamelCase) →
      (checked.foldl (fun error d => checkMutableGetters options d [] error d.generatedFields)
        error = [] ↔ error = [] ∧ ∀ d ∈ checked, ¬ d.MutConflict) := by
    intro checked
    induction checked with
    | nil => simp
    | cons d checked ih =>
      intro error hchecked
      rw [List.forall_mem_cons] at hchecked
      rw [List.foldl_cons, ih _ hchecked.2, checkMutableGetters_eq_nil_iff,
        pairwise_mutClash_iff hchecked.1, List.forall_mem_cons]
      simp [and_assoc]
  rw [mutFieldsClashError, hfold _ _ fun d hd => hcamel d (mem_messages_of_checked hd)]
  exact and_iff_right rfl

/-- If no naming conflict is reported for a file then the members of its messages are distinct,
exactly if without a conflict in the messages that are checked the names of the fields and oneofs of
all messages are apart. -/
theorem membersDistinct_iff {messages : List Descriptor}
    (hcamel : ∀ d ∈ messages, ∀ f ∈ d.generatedFields, f.IsCamelCase) :
    (mutFieldsClashError options messages = [] → ∀ d ∈ messages, d.MembersDistinct options) ↔
      ((∀ d ∈ checkedMessages messages, ¬ d.MutConflict) →
        ∀ d ∈ messages, d.NamesApart options) := by
  rw [mutFieldsClashError_eq_nil_iff hcamel]
  refine imp_congr_right fun _ => forall₂_congr fun d hd => ?_
  exact ⟨fun h => h.namesApart (hcamel d hd), fun h => h.membersDistinct (hcamel d hd)⟩

/-- The names of the sample are apart. -/
theorem namesApart_sample : sampleDescriptor.NamesApart {} where
  fields := by decide +kernel
  has := by decide +kernel
  data := by decide +kernel
  hasData := by decide +kernel
  mutableGetters := by decide +kernel
  oneofGetter := by decide +kernel
  oneofHas := by decide +kernel
  oneofClear := by decide +kernel
  oneofPointer := by decide +kernel
  oneofs := by decide +kernel
  oneofCaps := by decide +kernel

/-- Nothing is reported for this message, and its members are distinct. -/
theorem membersDistinct_sample : mutFieldsClashError {} [sampleDescriptor] = [] ∧
    ∀ d ∈ [sampleDescriptor], d.MembersDistinct {} := by
  have hcamel : ∀ d ∈ [sampleDescriptor], ∀ f ∈ d.generatedFields, f.IsCamelCase := by
    intro d hd
    rw [List.mem_singleton.mp hd]
    unfold FieldDescriptor.IsCamelCase
    decide
  have hreported : mutFieldsClashError {} [sampleDescriptor] = [] := by decide +kernel
  refine ⟨hreported, (membersDistinct_iff hcamel).mpr (fun _ d hd => ?_) hreported⟩
  rw [List.mem_singleton.mp hd]
  exact namesApart_sample

/-- A list of messages `item`, and a field `item_data`. -/
def itemDescriptor : Descriptor where
  type := sampleType
  fields := [
    { sampleField ⟨ascii "item", by decide, by decide, by decide⟩ 1 .message with
      label := .repeated },
    { sampleField ⟨ascii "item_data", by decide, by decide, by decide⟩ 2 .string with
      camelcaseName := ascii "itemData"
      jsonName := ascii "itemData" }]
  numbers_nodup := by decide
  numbers_bound := by decide

/-- Nothing is reported, and the message has two properties `itemData`. -/
theorem itemDescriptor_clash : (itemDescriptor.fields.map (·.jsonName)).Nodup ∧
    mutFieldsClashError {} [itemDescriptor] = [] ∧
    (printProperties {} itemDescriptor).map (·.name) =
      [ascii "item", ascii "itemData", ascii "itemData"] ∧
    ¬ itemDescriptor.MembersDistinct {} := by
  have hnames : (printProperties {} itemDescriptor).map (·.name) =
      [ascii "item", ascii "itemData", ascii "itemData"] := by decide +kernel
  refine ⟨by decide, by decide +kernel, hnames, ?_⟩
  intro h
  have hproperties := h.properties
  rw [hnames] at hproperties
  exact absurd hproperties (by decide)

end QtGrpc.Generator
