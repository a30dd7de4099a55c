import QtGrpc.Generator.FileSet

/-!
# Written names of types

The names in a type map by their components: what `getFullNamespace` makes of a type's package and
of the messages around it, and what `getScopeNamespace` leaves of that for a message that refers to
the type. A name with double colons in front has an empty first component.
-/

namespace QtGrpc.Generator

/-! ## Joined components -/

/-- Only no component joins to the empty name. -/
theorem join_nil_iff {values : List Bytes} (h : ∀ value ∈ values, value ≠ []) :
    join (ascii "::") values = [] ↔ values = [] :=
  join_eq_nil_iff (by decide) h

/-- Two components do not, empty or not. -/
theorem join_ne_nil_of_two {values : List Bytes} (h : 2 ≤ values.length) :
    join (ascii "::") values ≠ [] := by
  obtain ⟨value, next, values, rfl⟩ : ∃ value next rest, values = value :: next :: rest := by
    cases values with
    | nil => simp at h
    | cons value values =>
      cases values with
      | nil => simp at h
      | cons next values => exact ⟨value, next, values, rfl⟩
  rw [join_cons_cons]
  simp [ascii]

/-- The end of components of which the last one is not empty. -/
theorem join_suffix_nil_iff {left right front : List Bytes} {last : Bytes} (hlast : last ≠ [])
    (h : left ++ right = front ++ [last]) : join (ascii "::") right = [] ↔ right = [] := by
  rcases List.eq_nil_or_concat right with rfl | ⟨right, last', rfl⟩
  · exact iff_of_true rfl rfl
  · rw [List.concat_eq_append, ← List.append_assoc] at h
    obtain rfl := List.singleton_inj.mp (List.append_inj' h rfl).2
    rw [List.concat_eq_append]
    refine iff_of_false ?_ (by simp)
    by_cases hright : right = []
    · rw [hright]
      exact hlast
    · rw [join_append hright (by simp)]
      simp [ascii]

/-- Joined components that are not empty determine each other. -/
theorem join_injective {left right : List Bytes} (hleft : left ≠ []) (hright : right ≠ [])
    (hleftColon : ∀ component ∈ left, 58 ∉ component)
    (hrightColon : ∀ component ∈ right, 58 ∉ component)
    (h : join (ascii "::") left = join (ascii "::") right) : left = right := by
  rw [← splitNameFrom_join hleft hleftColon, h, splitNameFrom_join hright hrightColon]

/-- Joined components in front of a double colon are the first ones. -/
theorem splitNameFrom_join_append {components : List Bytes} (hne : components ≠ [])
    (h : ∀ component ∈ components, 58 ∉ component) (rest : Bytes) :
    splitNameFrom [] (join (ascii "::") components ++ (ascii "::" ++ rest)) =
      components ++ splitNameFrom [] rest := by
  induction components with
  | nil => exact absurd rfl hne
  | cons component components ih =>
    have hcomponent := h component List.mem_cons_self
    cases components with
    | nil => exact splitNameFrom_separator hcomponent rest
    | cons next components =>
      rw [join_cons_cons, List.append_assoc, List.append_assoc, splitNameFrom_separator hcomponent,
        ih (by simp) fun c hc => h c (List.mem_cons_of_mem _ hc)]
      rfl

/-- Namespaces are cut off by components. -/
theorem cutScopeNamespace_join {original scope : List Bytes} (horiginal : original ≠ [])
    (hscope : join (ascii "::") scope = [] ↔ scope = [])
    (horiginalColon : ∀ component ∈ original, 58 ∉ component)
    (hscopeColon : ∀ component ∈ scope, 58 ∉ component) :
    cutScopeNamespace (join (ascii "::") original) (join (ascii "::") scope) =
      join (ascii "::") (if scope ≠ [] ∧ scope <+: original then original.drop scope.length
        else original) := by
  rw [cutScopeNamespace]
  by_cases hnil : scope = []
  · rw [if_pos (hscope.mpr hnil), if_neg fun h => h.1 hnil]
  · rw [if_neg (hscope.not.mpr hnil)]
    by_cases hprefix : scope <+: original
    · have hcut : (if scope ≠ [] ∧ scope <+: original then original.drop scope.length
          else original) = original.drop scope.length := if_pos ⟨hnil, hprefix⟩
      rw [hcut]
      obtain ⟨rest, rfl⟩ := hprefix
      rw [List.drop_left]
      by_cases hrest : rest = []
      · rw [hrest, List.append_nil, if_pos rfl]
        rfl
      · have hother : join (ascii "::") (scope ++ rest) ≠ join (ascii "::") scope := by
          intro heq
          have happend := join_injective horiginal hnil horiginalColon hscopeColon heq
          exact hrest (by simpa using happend)
        have hfront : (join (ascii "::") scope ++ ascii "::").isPrefixOf
            (join (ascii "::") (scope ++ rest)) = true := by
          rw [join_append hnil hrest]
          exact List.isPrefixOf_iff_prefix.mpr (List.prefix_append _ _)
        rw [if_neg hother, if_pos hfront, join_append hnil hrest, List.drop_left]
    · have hcut : (if scope ≠ [] ∧ scope <+: original then original.drop scope.length
          else original) = original := if_neg fun h => hprefix h.2
      have hother : join (ascii "::") original ≠ join (ascii "::") scope := by
        intro heq
        rw [join_injective horiginal hnil horiginalColon hscopeColon heq] at hprefix
        exact hprefix List.prefix_rfl
      have hfront : ¬ (join (ascii "::") scope ++ ascii "::").isPrefixOf
          (join (ascii "::") original) = true := by
        intro htext
        obtain ⟨rest, hrest⟩ := List.isPrefixOf_iff_prefix.mp htext
        rw [List.append_assoc] at hrest
        have hsplit := splitNameFrom_join_append hnil hscopeColon rest
        rw [hrest, splitNameFrom_join horiginal horiginalColon] at hsplit
        exact hprefix ⟨_, hsplit.symm⟩
      rw [hcut, if_neg hother, if_neg hfront]

/-- A name in namespaces is the last of their components. -/
theorem qualify_join {namespaces : List Bytes} (name : Bytes)
    (h : join (ascii "::") namespaces = [] ↔ namespaces = []) :
    qualify (join (ascii "::") namespaces) name = join (ascii "::") (namespaces ++ [name]) := by
  rw [qualify]
  by_cases hnil : namespaces = []
  · rw [if_pos (h.mpr hnil), hnil]
    rfl
  · rw [if_neg (h.not.mpr hnil), join_append hnil (by simp)]
    rfl

/-- Namespaces behind others, as `getFullNamespace` puts them together. -/
theorem join_behind {outer inner : List Bytes}
    (houter : join (ascii "::") outer = [] ↔ outer = [])
    (hinner : join (ascii "::") inner = [] ↔ inner = []) :
    (if join (ascii "::") outer ≠ [] ∧ join (ascii "::") inner ≠ [] then
        join (ascii "::") outer ++ ascii "::" else join (ascii "::") outer) ++
      join (ascii "::") inner = join (ascii "::") (outer ++ inner) := by
  by_cases houterNil : outer = []
  · rw [if_neg fun h => h.1 (houter.mpr houterNil), houterNil]
    rfl
  · by_cases hinnerNil : inner = []
    · rw [if_neg fun h => h.2 (hinner.mpr hinnerNil), hinnerNil, List.append_nil]
      exact List.append_nil _
    · rw [if_pos ⟨houter.not.mpr houterNil, hinner.not.mpr hinnerNil⟩,
        join_append houterNil hinnerNil]

/-! ## Full namespaces -/

/-- An enumeration that no message is around. -/
def TypeDescriptor.isGlobalEnum (t : TypeDescriptor) : Bool := t.containing.isEmpty && t.isEnum

/-- The package of a type and the messages around it, as `getFullNamespace` writes them. -/
def TypeDescriptor.writtenNamespace (t : TypeDescriptor) : List Bytes :=
  if t.containing = [] then t.file.packageNamespace
  else (if t.file.package = [] then [[]] else t.file.package.map (·.text)) ++
    t.containing.map (·.className)

/-- The namespaces a type's name begins with, within the namespace of the option. -/
theorem TypeDescriptor.join_writtenNamespace (t : TypeDescriptor) :
    (let namespaces := replace (t.file.packageName ++
        t.containing.flatMap fun c => ascii "::" ++ capitalizeAsciiName c.text) (ascii ".") (ascii "::")
      if namespaces = ascii "QtCore" ∨ namespaces = ascii "QtGui" then
        ascii "QtProtobufPrivate" ++ ascii "::" ++ namespaces
      else namespaces) = join (ascii "::") t.writtenNamespace := by
  rw [TypeDescriptor.writtenNamespace]
  by_cases hnil : t.containing = []
  · rw [if_pos hnil, hnil, List.flatMap_nil, List.append_nil]
    exact t.file.join_packageNamespace
  · have hclasses : (46 : UInt8) ∉
        t.containing.flatMap fun c => ascii "::" ++ capitalizeAsciiName c.text := by
      rw [List.mem_flatMap]
      rintro ⟨c, -, hc⟩
      rcases List.mem_append.mp hc with hcolon | hclass
      · exact absurd hcolon (by decide)
      · exact c.className_component.2.2 hclass
    have htext : replace (t.file.packageName ++
        t.containing.flatMap fun c => ascii "::" ++ capitalizeAsciiName c.text) (ascii ".")
          (ascii "::") = join (ascii "::") ((if t.file.package = [] then [[]] else
            t.file.package.map (·.text)) ++ t.containing.map (·.className)) := by
      rw [replace_dot, List.flatMap_append, flatMap_of_not_mem _ hclasses, ← replace_dot,
        FileDescriptor.packageName, replace_joinNames, join_append_flatMap (by split <;> simp [*]),
        List.flatMap_map]
      congr 1
      split
      · rename_i hpackage
        rw [hpackage]
        rfl
      · rfl
    have hcolon : (58 : UInt8) ∈ join (ascii "::") ((if t.file.package = [] then [[]] else
        t.file.package.map (·.text)) ++ t.containing.map (·.className)) := by
      rw [join_append (by split <;> simp [*]) (by simpa using hnil)]
      simp [ascii]
    rw [if_neg hnil]
    simp only [htext]
    rw [if_neg]
    rintro (hqt | hqt)
    · rw [hqt] at hcolon
      exact absurd hcolon (by decide)
    · rw [hqt] at hcolon
      exact absurd hcolon (by decide)

/-- The written namespace is empty only where there is none. -/
theorem TypeDescriptor.join_writtenNamespace_nil_iff (t : TypeDescriptor) :
    join (ascii "::") t.writtenNamespace = [] ↔ t.writtenNamespace = [] := by
  rw [TypeDescriptor.writtenNamespace]
  split
  · exact join_nil_iff fun c hc => (t.file.packageNamespace_component c hc).1
  · rename_i hnil
    have hlength : 2 ≤ ((if t.file.package = [] then [[]] else t.file.package.map (·.text)) ++
        t.containing.map (·.className)).length := by
      have hcontaining := List.length_pos_iff.mpr hnil
      have hpackage : 0 < (if t.file.package = [] then [[]] else
          t.file.package.map (·.text)).length := by
        split <;> simp [List.length_pos_iff, *]
      simp only [List.length_append, List.length_map] at hpackage ⊢
      omega
    constructor
    · intro hjoin
      exact absurd hjoin (join_ne_nil_of_two hlength)
    · intro hempty
      rw [hempty] at hlength
      simp at hlength

/-- Its components have no colons. -/
theorem TypeDescriptor.writtenNamespace_colon (t : TypeDescriptor) :
    ∀ component ∈ t.writtenNamespace, 58 ∉ component := by
  intro component hcomponent
  rw [TypeDescriptor.writtenNamespace] at hcomponent
  split at hcomponent
  · exact (t.file.packageNamespace_component component hcomponent).2
  · rcases List.mem_append.mp hcomponent with hpackage | hclass
    · split at hpackage
      · rw [List.mem_singleton.mp hpackage]
        exact List.not_mem_nil
      · obtain ⟨name, -, rfl⟩ := List.mem_map.mp hpackage
        exact name.text_component.2.1
    · obtain ⟨name, -, rfl⟩ := List.mem_map.mp hclass
      exact name.className_component.2.1

namespace FileSet

variable (set : FileSet)

/-- The namespaces of the option. -/
def extraComponents : List Bytes := set.extraNamespaces.map (·.text)

/-- The components of `getFullNamespace` of a type. -/
def fullNamespace (t : TypeDescriptor) : List Bytes := set.extraComponents ++ t.writtenNamespace

variable {set}

/-- Nor have those of the extra namespace, and none is empty. -/
theorem extraComponents_component (set : FileSet) :
    ∀ component ∈ set.extraComponents, component ≠ [] ∧ 58 ∉ component := by
  intro component hcomponent
  obtain ⟨name, -, rfl⟩ := List.mem_map.mp hcomponent
  exact ⟨name.text_component.1, name.text_component.2.1⟩

/-- A file lies in the extra namespace and that of its package. -/
theorem fileNamespace_eq (file : FileDescriptor) :
    fileNamespace set.options file = set.extraComponents ++ file.packageNamespace :=
  Generator.fileNamespace_eq set.extraNamespace_eq file

/-- `getFullNamespace` of a type of the set. -/
theorem getFullNamespace_eq {t : TypeDescriptor} (ht : t ∈ set.types) :
    getFullNamespace set.options t (ascii "::") = join (ascii "::") (set.fullNamespace t) := by
  have hfront := beforeLastDot_append t.name.text_component.2.2 (t.file.packageName ++
    t.containing.flatMap fun c => ascii "::" ++ capitalizeAsciiName c.text)
  have hextra : (if isExtraNamespacedFile set.options t.file.name then
      set.options.extraNamespace else []) = join (ascii "::") set.extraComponents := by
    by_cases hnone : set.extraNamespaces = []
    · have hempty := set.extraNamespace_eq
      rw [hnone] at hempty
      rw [extraComponents, hnone, hempty]
      split <;> rfl
    · rw [if_pos (set.isExtraNamespaced hnone t ht), set.extraNamespace_eq]
      rfl
  have hwritten := t.join_writtenNamespace
  simp only at hwritten
  rw [← List.append_assoc] at hfront
  simp only [getFullNamespace, getFullNamespaceOf, hfront]
  rw [hwritten, hextra, join_behind (join_nil_iff fun c hc => (extraComponents_component set c hc).1)
    t.join_writtenNamespace_nil_iff]
  rfl

/-- The full namespace is empty only where there is none. -/
theorem join_fullNamespace_nil_iff (t : TypeDescriptor) :
    join (ascii "::") (set.fullNamespace t) = [] ↔ set.fullNamespace t = [] := by
  have hbehind := join_behind
    (join_nil_iff fun c hc => (extraComponents_component set c hc).1)
    t.join_writtenNamespace_nil_iff
  have hextra := join_nil_iff fun c hc => (extraComponents_component set c hc).1
  rw [fullNamespace, ← hbehind, List.append_eq_nil_iff, List.append_eq_nil_iff]
  constructor
  · rintro ⟨hfront, hwritten⟩
    rw [if_neg fun h => h.2 hwritten] at hfront
    exact ⟨hextra.mp hfront, t.join_writtenNamespace_nil_iff.mp hwritten⟩
  · rintro ⟨hnone, hwritten⟩
    rw [if_neg fun h => h.1 (hextra.mpr hnone)]
    exact ⟨hextra.mpr hnone, t.join_writtenNamespace_nil_iff.mpr hwritten⟩

/-- Its components have no colons. -/
theorem fullNamespace_colon (t : TypeDescriptor) :
    ∀ component ∈ set.fullNamespace t, 58 ∉ component := by
  intro component hcomponent
  rcases List.mem_append.mp hcomponent with hextra | hwritten
  · exact (extraComponents_component set component hextra).2
  · exact t.writtenNamespace_colon component hwritten

end FileSet

/-! ## Nested namespaces -/

/-- The names of the messages around a type, from the innermost on, up to some message. -/
def TypeDescriptor.namesUpTo (t scope : TypeDescriptor) : List Identifier → List Identifier
  | [] => []
  | name :: outer =>
    if { file := t.file, containing := outer.reverse, name, kind := .message } = scope then [name]
    else name :: t.namesUpTo scope outer

/-- Behind the types around the scope the namespaces of the nested ones are written out. -/
theorem TypeDescriptor.nestingNamespaces_rest (t scope : TypeDescriptor) (names : List Identifier)
    {inner : List Bytes} (hinner : inner ≠ []) :
    nestingNamespaces scope (TypeDescriptor.containingTypes.go t names)
        (qtProtobufNestedNamespace ++ ascii "::") false (join (ascii "::") inner) =
      join (ascii "::") ((t.namesUpTo scope names).reverse.map (·.nestedNamespace) ++ inner) := by
  induction names generalizing inner with
  | nil => rfl
  | cons name outer ih =>
    have htext : capitalizeAsciiName name.text ++ (qtProtobufNestedNamespace ++ ascii "::") ++
        join (ascii "::") inner = join (ascii "::") (name.nestedNamespace :: inner) := by
      obtain ⟨next, inner, rfl⟩ := List.exists_cons_of_ne_nil hinner
      rw [join_cons_cons, Identifier.nestedNamespace, Identifier.className]
      simp only [List.append_assoc]
    rw [TypeDescriptor.containingTypes.go, nestingNamespaces, htext, TypeDescriptor.namesUpTo]
    by_cases hscope : ({ file := t.file, containing := outer.reverse, name, kind := .message } :
        TypeDescriptor) = scope
    · rw [if_pos hscope, if_pos hscope]
      rfl
    · rw [if_neg hscope, if_neg hscope, if_neg (by decide), ih (by simp), List.reverse_cons,
        List.map_append, List.append_assoc]
      rfl

/-- The loop over the messages around a type joins their namespaces. -/
theorem TypeDescriptor.nestingNamespaces_eq (t scope : TypeDescriptor) :
    nestingNamespaces scope t.containingTypes qtProtobufNestedNamespace true [] =
      join (ascii "::")
        ((t.namesUpTo scope t.containing.reverse).reverse.map (·.nestedNamespace)) := by
  rw [TypeDescriptor.containingTypes]
  cases t.containing.reverse with
  | nil => rfl
  | cons name outer =>
    rw [TypeDescriptor.containingTypes.go, nestingNamespaces, TypeDescriptor.namesUpTo,
      List.append_nil]
    by_cases hscope : ({ file := t.file, containing := outer.reverse, name, kind := .message } :
        TypeDescriptor) = scope
    · rw [if_pos hscope, if_pos hscope]
      rfl
    · rw [if_neg hscope, if_neg hscope, if_pos rfl]
      have hrest := t.nestingNamespaces_rest scope outer (List.cons_ne_nil name.nestedNamespace [])
      rw [List.reverse_cons, List.map_append]
      exact hrest

/-- The messages around a type are those that its containing names lead to. -/
theorem TypeDescriptor.mem_containingTypes_go {t outer : TypeDescriptor} {names : List Identifier} :
    outer ∈ TypeDescriptor.containingTypes.go t names ↔
      ∃ front name back, names.reverse = front ++ name :: back ∧
        outer = { file := t.file, containing := front, name, kind := .message } := by
  induction names with
  | nil => simp [TypeDescriptor.containingTypes.go]
  | cons last names ih =>
    rw [TypeDescriptor.containingTypes.go, List.mem_cons, ih, List.reverse_cons]
    constructor
    · rintro (rfl | ⟨front, name, back, hnames, rfl⟩)
      · exact ⟨names.reverse, last, [], rfl, rfl⟩
      · exact ⟨front, name, back ++ [last], by rw [hnames]; simp, rfl⟩
    · rintro ⟨front, name, back, hnames, rfl⟩
      rcases List.eq_nil_or_concat back with rfl | ⟨back, last', rfl⟩
      · obtain ⟨rfl, hlast⟩ := List.append_inj' hnames rfl
        obtain rfl := (List.cons.inj hlast).1
        exact Or.inl rfl
      · refine Or.inr ⟨front, name, back, ?_, rfl⟩
        have hsplit : names.reverse ++ [last] = (front ++ name :: back) ++ [last'] := by
          rw [hnames]
          simp
        exact (List.append_inj' hsplit rfl).1

/-- The types around a type are those its name leads through. -/
theorem TypeDescriptor.mem_containingTypes {t outer : TypeDescriptor} :
    outer ∈ t.containingTypes ↔
      ∃ front name back, t.containing = front ++ name :: back ∧
        outer = { file := t.file, containing := front, name, kind := .message } := by
  rw [TypeDescriptor.containingTypes, TypeDescriptor.mem_containingTypes_go, List.reverse_reverse]

/-- The loop stops at the message that refers to the type if that is around it. -/
theorem TypeDescriptor.namesUpTo_reverse (t scope : TypeDescriptor) (names : List Identifier) :
    (t.namesUpTo scope names).reverse =
      if scope ∈ TypeDescriptor.containingTypes.go t names then
        names.reverse.drop scope.containing.length
      else names.reverse := by
  induction names with
  | nil => simp [TypeDescriptor.namesUpTo, TypeDescriptor.containingTypes.go]
  | cons name outer ih =>
    rw [TypeDescriptor.namesUpTo, TypeDescriptor.containingTypes.go, List.reverse_cons]
    by_cases hscope : ({ file := t.file, containing := outer.reverse, name, kind := .message } :
        TypeDescriptor) = scope
    · rw [if_pos hscope, if_pos (by rw [hscope]; exact List.mem_cons_self), ← hscope]
      rw [List.drop_left]
      rfl
    · rw [if_neg hscope, List.reverse_cons, ih]
      have hmem : scope ∈ ({ file := t.file, containing := outer.reverse, name, kind := .message } ::
          TypeDescriptor.containingTypes.go t outer) ↔
          scope ∈ TypeDescriptor.containingTypes.go t outer := by
        rw [List.mem_cons, or_iff_right (Ne.symm hscope)]
      by_cases hinner : scope ∈ TypeDescriptor.containingTypes.go t outer
      · rw [if_pos hinner, if_pos (hmem.mpr hinner)]
        obtain ⟨front, first, back, houter, rfl⟩ := TypeDescriptor.mem_containingTypes_go.mp hinner
        rw [houter, List.append_assoc, List.drop_left, List.drop_left]
      · rw [if_neg hinner, if_neg (hmem.not.mpr hinner)]

namespace FileSet

variable (set : FileSet)

/-- The type map of a field that refers to a message or an enumeration. -/
def typeMap (t scope : TypeDescriptor) : TypeMap :=
  if t.isEnum then produceEnumTypeMap set.options t (some scope)
  else produceMessageTypeMap set.options t (some scope)

/-- The namespace that a global enumeration is declared in, as it is written. -/
def gadgetNamespace (t : TypeDescriptor) : List Bytes :=
  (if set.fullNamespace t = [] then [[]] else set.fullNamespace t) ++
    [t.name.className ++ enumClassSuffix]

/-- The components of `full_type`. -/
def fullName (t : TypeDescriptor) : List Bytes :=
  (if t.isGlobalEnum then set.gadgetNamespace t else set.fullNamespace t) ++ [t.name.className]

/-- The messages around a type that its name begins with where a message refers to it. -/
def scopeContaining (t scope : TypeDescriptor) : List Identifier :=
  if scope ∈ t.containingTypes then t.containing.drop scope.containing.length else t.containing

/-- The components of `scope_type`. -/
def scopeName (t scope : TypeDescriptor) : List Bytes :=
  if t.isGlobalEnum then
    (if set.fullNamespace scope ≠ [] ∧ set.fullNamespace scope <+: set.gadgetNamespace t then
      (set.gadgetNamespace t).drop (set.fullNamespace scope).length else set.gadgetNamespace t) ++
      [t.name.className]
  else if scope.file.packageName ≠ t.file.packageName then set.fullName t
  else (scopeContaining t scope).map (·.nestedNamespace) ++ [t.name.className]

variable {set}

/-- A gadget lies in two namespaces at least. -/
theorem gadgetNamespace_length (set : FileSet) (t : TypeDescriptor) : 2 ≤ (set.gadgetNamespace t).length := by
  rw [gadgetNamespace, List.length_append]
  split
  · exact Nat.le_refl 2
  · rename_i hne
    have hlength := List.length_pos_iff.mpr hne
    rw [List.length_singleton]
    omega

/-- The namespace of a gadget is one in that of its enumeration. -/
theorem join_gadgetNamespace (t : TypeDescriptor) :
    join (ascii "::") (set.gadgetNamespace t) = join (ascii "::") (set.fullNamespace t) ++
      ascii "::" ++ (capitalizeAsciiName t.name.text ++ enumClassSuffix) := by
  rw [gadgetNamespace, join_append (by split <;> simp [*]) (by simp)]
  split
  · rename_i hnil
    rw [hnil]
    rfl
  · rfl

/-- Its components have no colons. -/
theorem gadgetNamespace_colon (t : TypeDescriptor) :
    ∀ component ∈ set.gadgetNamespace t, 58 ∉ component := by
  intro component hcomponent
  rcases List.mem_append.mp hcomponent with hnamespace | hgadget
  · split at hnamespace
    · rw [List.mem_singleton.mp hnamespace]
      exact List.not_mem_nil
    · exact fullNamespace_colon t component hnamespace
  · rw [List.mem_singleton.mp hgadget, List.mem_append, not_or]
    exact ⟨t.name.className_component.2.1, by decide⟩

/-- The joined name is never empty, nor is the namespace. -/
theorem join_gadgetNamespace_nil_iff (t : TypeDescriptor) :
    join (ascii "::") (set.gadgetNamespace t) = [] ↔ set.gadgetNamespace t = [] := by
  have hlength := gadgetNamespace_length set t
  constructor
  · intro hjoin
    exact absurd hjoin (join_ne_nil_of_two hlength)
  · intro hnil
    rw [hnil] at hlength
    simp at hlength

/-- An enumeration is global if it lies in no message. -/
theorem enumVisibility_global_iff {t : TypeDescriptor} {scope : Option TypeDescriptor} :
    enumVisibility t scope = .globalEnum ↔ t.containing = [] := by
  rw [enumVisibility, TypeDescriptor.containingTypes]
  rcases List.eq_nil_or_concat t.containing with hnil | ⟨front, last, hlast⟩
  · simp [hnil, TypeDescriptor.containingTypes.go]
  · rw [hlast, List.concat_eq_append, List.reverse_append]
    simp only [List.reverse_singleton, List.singleton_append, TypeDescriptor.containingTypes.go,
      List.append_eq_nil_iff, List.cons_ne_nil, and_false, iff_false]
    split <;> simp

/-- `full_type` is joined of its components. -/
theorem typeMap_fullType {t : TypeDescriptor} (ht : t ∈ set.types) (scope : TypeDescriptor) :
    (set.typeMap t scope).fullType = join (ascii "::") (set.fullName t) := by
  rw [typeMap, fullName]
  by_cases henum : t.isEnum = true
  · rw [if_pos henum]
    simp only [produceEnumTypeMap, enumVisibility_global_iff, getFullNamespace_eq ht]
    by_cases hnil : t.containing = []
    · have hglobal : t.isGlobalEnum = true := by simp [TypeDescriptor.isGlobalEnum, hnil, henum]
      rw [if_pos hnil, if_pos hglobal, ← join_gadgetNamespace,
        qualify_join _ (join_gadgetNamespace_nil_iff t)]
      rfl
    · have hglobal : ¬ t.isGlobalEnum = true := by simp [TypeDescriptor.isGlobalEnum, hnil]
      rw [if_neg hnil, if_neg hglobal, qualify_join _ (join_fullNamespace_nil_iff t)]
      rfl
  · have hglobal : ¬ t.isGlobalEnum = true := by simp [TypeDescriptor.isGlobalEnum, henum]
    rw [if_neg henum, if_neg hglobal]
    simp only [produceMessageTypeMap, getFullNamespace_eq ht]
    rw [qualify_join _ (join_fullNamespace_nil_iff t)]
    rfl

/-- `getScopeNamespace` of a type of the set. -/
theorem getScopeNamespace_eq {t scope : TypeDescriptor} (ht : t ∈ set.types)
    (hmap : t.isMap = false) :
    getScopeNamespace set.options t (some scope) =
      join (ascii "::") (if scope.file.packageName ≠ t.file.packageName then set.fullNamespace t
        else (scopeContaining t scope).map (·.nestedNamespace)) := by
  simp only [getScopeNamespace, hmap, getFullNamespace_eq ht]
  by_cases hpackage : scope.file.packageName ≠ t.file.packageName
  · rw [if_pos hpackage, if_pos hpackage]
  · rw [if_neg hpackage, if_neg hpackage, scopeContaining]
    have hnesting := t.nestingNamespaces_eq scope
    rw [t.namesUpTo_reverse, List.reverse_reverse] at hnesting
    exact hnesting

/-- The namespace for nested types is a component. -/
theorem nestedNamespace_component (name : Identifier) :
    name.nestedNamespace ≠ [] ∧ 58 ∉ name.nestedNamespace := by
  rw [Identifier.nestedNamespace]
  refine ⟨?_, ?_⟩
  · simp [name.className_component.1]
  · rw [List.mem_append, not_or]
    exact ⟨name.className_component.2.1, by decide⟩

/-- `scope_type` is joined of its components. -/
theorem typeMap_scopeType {t scope : TypeDescriptor} (ht : t ∈ set.types)
    (hscope : scope ∈ set.types) (hmap : t.isMap = false) :
    (set.typeMap t scope).scopeType = join (ascii "::") (set.scopeName t scope) := by
  have hnested : join (ascii "::") ((scopeContaining t scope).map (·.nestedNamespace)) = [] ↔
      (scopeContaining t scope).map (·.nestedNamespace) = [] := by
    apply join_nil_iff
    intro component hcomponent
    obtain ⟨name, -, rfl⟩ := List.mem_map.mp hcomponent
    exact (nestedNamespace_component name).1
  have hqualify : t.isGlobalEnum = false →
      qualify (getScopeNamespace set.options t (some scope)) t.name.className =
        join (ascii "::") (set.scopeName t scope) := by
    intro hglobal
    rw [getScopeNamespace_eq ht hmap, scopeName, fullName, hglobal, if_neg Bool.false_ne_true,
      if_neg Bool.false_ne_true]
    split
    · exact qualify_join _ (join_fullNamespace_nil_iff t)
    · exact qualify_join _ hnested
  rw [typeMap]
  by_cases henum : t.isEnum = true
  · rw [if_pos henum]
    simp only [produceEnumTypeMap, enumVisibility_global_iff]
    by_cases hnil : t.containing = []
    · have hglobal : t.isGlobalEnum = true := by simp [TypeDescriptor.isGlobalEnum, hnil, henum]
      have hgadget : set.gadgetNamespace t ≠ [] := by
        rw [gadgetNamespace]
        simp
      rw [if_pos hnil, if_pos hnil, Option.map_some, Option.getD_some, getFullNamespace_eq ht,
        getFullNamespace_eq hscope, ← join_gadgetNamespace,
        cutScopeNamespace_join hgadget (join_fullNamespace_nil_iff scope) (gadgetNamespace_colon t)
          (fullNamespace_colon scope), scopeName, if_pos hglobal]
      refine qualify_join _ ?_
      split
      · rename_i hcut
        obtain ⟨rest, hrest⟩ := hcut.2
        rw [← hrest, List.drop_left]
        exact join_suffix_nil_iff (t.name.className_component.1 ∘ And.left ∘ List.append_eq_nil_iff.mp)
          hrest
      · exact join_gadgetNamespace_nil_iff t
    · have hglobal : t.isGlobalEnum = false := by simp [TypeDescriptor.isGlobalEnum, hnil]
      rw [if_neg hnil]
      exact hqualify hglobal
  · have hglobal : t.isGlobalEnum = false := by simp [TypeDescriptor.isGlobalEnum, henum]
    rw [if_neg henum]
    exact hqualify hglobal

/-- The components of a full name have no colons. -/
theorem fullName_colon (t : TypeDescriptor) : ∀ component ∈ set.fullName t, 58 ∉ component := by
  intro component hcomponent
  rcases List.mem_append.mp hcomponent with hnamespace | hclass
  · split at hnamespace
    · exact gadgetNamespace_colon t component hnamespace
    · exact fullNamespace_colon t component hnamespace
  · rw [List.mem_singleton.mp hclass]
    exact t.name.className_component.2.1

/-- Components in front of the name of a class are those of the text they are joined to. -/
theorem splitName_join_className {namespaces : List Bytes} {name : Identifier}
    (h : ∀ component ∈ namespaces ++ [name.className], 58 ∉ component) :
    splitName (join (ascii "::") (namespaces ++ [name.className])) =
      namespaces ++ [name.className] := by
  have hlast : [] ++ (namespaces ++ [name.className]) = namespaces ++ [name.className] := rfl
  have hne : join (ascii "::") (namespaces ++ [name.className]) ≠ [] :=
    (join_suffix_nil_iff name.className_component.1 hlast).not.mpr (by simp)
  rw [splitName, if_neg hne, splitNameFrom_join (by simp) h]

end FileSet

end QtGrpc.Generator
