import QtGrpc.Generator.TypeNames

/-!
# References to types

What the names in a type map denote where a message refers to a type. A name that leaves out the
namespaces around that place leads through a nearer namespace if one declares its first component,
and `getFullNamespace` does not write every namespace that a nested type is declared in.
-/

namespace QtGrpc.Generator.FileSet

open NameLookup (Unhidden)

variable (set : FileSet)

/-- The qualified name of a type that leads through the classes of the messages around it. -/
def classPath (t : TypeDescriptor) : List Bytes :=
  fileNamespace set.options t.file ++
    (if t.isGlobalEnum then [t.name.className ++ enumClassSuffix]
      else t.containing.map (·.className)) ++ [t.name.className]

/-- The qualified name that a type is declared by. -/
def declaredPath (t : TypeDescriptor) : List Bytes := set.namespaces t ++ [t.name.className]

/-- The condition for `full_type` to be found. No class that it leads through may have the name of
the one around it. A nested type without a package needs that there is no extra namespace, one of the
packages kept apart from Qt needs that it is referred to from there, and otherwise no namespace around
the reference may declare what the name begins with. -/
def FullResolves (place : List Bytes) (t : TypeDescriptor) : Prop :=
  ClassesDiffer (t.containing ++ [t.name]) ∧ set.Unshared (set.classPath t) t ∧
    if t.containing ≠ [] ∧ t.file.package = [] then set.extraNamespaces = []
    else if t.containing ≠ [] ∧ t.file.isQtPackage = true then
      place.take 1 ++ set.extraComponents = set.extraComponents ++ [ascii "QtProtobufPrivate"] ∧
        Unhidden set.declares place 1
          ((set.extraComponents ++ t.file.package.map (·.text)).headD [])
    else t.isGlobalEnum = true ∧ fileNamespace set.options t.file = [] ∨
      Unhidden set.declares place 0 ((set.classPath t).headD [])

instance (place : List Bytes) (t : TypeDescriptor) : Decidable (set.FullResolves place t) :=
  inferInstanceAs (Decidable (_ ∧ _ ∧ ite _ _ (ite _ _ _)))

variable {set}

/-- A global enumeration is one outside all messages. -/
theorem isGlobalEnum_iff {t : TypeDescriptor} :
    t.isGlobalEnum = true ↔ t.containing = [] ∧ t.isEnum = true := by
  rw [TypeDescriptor.isGlobalEnum, Bool.and_eq_true, List.isEmpty_iff]

/-- Any other type stands in a message or is no enumeration. -/
theorem isEnum_of_not_global {t : TypeDescriptor} (h : ¬ t.isGlobalEnum = true) :
    t.containing ≠ [] ∨ t.isEnum = false := by
  rw [isGlobalEnum_iff, not_and_or, Bool.not_eq_true] at h
  exact h

/-- A global enumeration has the namespace of its gadget. -/
theorem localNamespace_global {t : TypeDescriptor} (h : t.isGlobalEnum = true) :
    t.localNamespace = [t.name.className ++ enumClassSuffix] := by
  rw [TypeDescriptor.localNamespace, if_pos (isGlobalEnum_iff.mp h)]

/-- The declared path names the type. -/
theorem names_declaredPath (set : FileSet) {t : TypeDescriptor} (hmap : t.isMap = false) :
    Names set.options t (set.declaredPath t) := Names.declared t hmap

/-- A class is not named like its nested namespace. -/
theorem className_ne_nestedNamespace (name : Identifier) :
    name.className ≠ name.nestedNamespace := by
  intro h
  have hlength := congrArg List.length h
  have hsuffix : qtProtobufNestedNamespace.length = 17 := by decide
  rw [Identifier.nestedNamespace, List.length_append] at hlength
  omega

/-- A name that leads through classes does so from the first one on. -/
theorem take_eq_nil_of_classes {containing : List Identifier} {i : Nat} {back : List Bytes}
    {classes : List Bytes} (hi : i ≤ containing.length)
    (hclasses : ∀ name ∈ containing.head?, classes.head? ≠ some name.nestedNamespace)
    (h : classes = (containing.take i).map (·.nestedNamespace) ++ back) : i = 0 := by
  cases i with
  | zero => rfl
  | succ i =>
    obtain ⟨outer, rest, hcontaining⟩ := List.exists_cons_of_length_pos (l := containing) (by omega)
    rw [hcontaining] at h
    exact absurd (by rw [h]; rfl) (hclasses outer (by rw [hcontaining]; rfl))

/-- The classes around a type lead to it if none has the name of the one around it. -/
theorem names_classPath_iff (set : FileSet) {t : TypeDescriptor} (hmap : t.isMap = false) :
    Names set.options t (set.classPath t) ↔ ClassesDiffer (t.containing ++ [t.name]) := by
  rw [classPath]
  by_cases hglobal : t.isGlobalEnum = true
  · rw [if_pos hglobal, ← localNamespace_global hglobal, (isGlobalEnum_iff.mp hglobal).1]
    exact iff_of_true (names_declaredPath set hmap) (List.isChain_singleton _)
  · rw [if_neg hglobal]
    have ht := isEnum_of_not_global hglobal
    constructor
    · intro hnames
      obtain ⟨i, hi, hpath, hdiffer, -⟩ := hnames.exists_take ht
      rw [List.append_assoc, List.append_assoc, List.append_assoc] at hpath
      obtain rfl := take_eq_nil_of_classes hi (fun name hname => by
        obtain ⟨rest, hcontaining⟩ := List.head?_eq_some_iff.mp hname
        rw [hcontaining]
        simpa using className_ne_nestedNamespace name) (List.append_cancel_left hpath)
      simpa using hdiffer
    · intro hdiffer
      have hnames := Names.of_take set.options ht (Nat.zero_le _) (by simpa using hdiffer) (by
        rw [hmap]
        exact fun h => absurd h Bool.false_ne_true)
      simpa using hnames

/-- Where a name begins that leads to a type is known from the number of its components. -/
theorem eq_of_names {t : TypeDescriptor} (hmap : t.isMap = false) (front : List Bytes)
    {place path : List Bytes} {outer : Nat} (houter : outer ≤ place.length)
    (hnames : Names set.options t (place.take outer ++ path))
    (hpath : (front ++ path).length = (set.declaredPath t).length) : outer = front.length := by
  have hlength := hnames.length_eq
  rw [← (names_declaredPath set hmap).length_eq, ← hpath] at hlength
  simp only [List.length_append, List.length_take] at hlength
  omega

/-- The path that is printed is as long as the declared one. -/
theorem classPath_length (set : FileSet) (t : TypeDescriptor) :
    (set.classPath t).length = (set.declaredPath t).length := by
  rw [classPath, declaredPath, namespaces]
  by_cases hglobal : t.isGlobalEnum = true
  · rw [if_pos hglobal, localNamespace_global hglobal]
  · rw [if_neg hglobal, t.localNamespace_nested (isEnum_of_not_global hglobal)]
    simp only [List.length_append, List.length_map]

/-- No component of a file's namespace is empty. -/
theorem fileNamespace_component (file : FileDescriptor) :
    ∀ component ∈ fileNamespace set.options file, component ≠ [] := by
  intro component hcomponent
  rw [fileNamespace_eq] at hcomponent
  rcases List.mem_append.mp hcomponent with hextra | hpackage
  · exact (extraComponents_component set component hextra).1
  · exact (file.packageNamespace_component component hpackage).1

/-- No component of a printed path is empty. -/
theorem classPath_component (t : TypeDescriptor) :
    ∀ component ∈ set.classPath t, component ≠ [] := by
  intro component hcomponent
  rw [classPath, List.mem_append, List.mem_append, List.mem_singleton] at hcomponent
  rcases hcomponent with (hfile | hlocal) | rfl
  · exact fileNamespace_component t.file component hfile
  · split at hlocal
    · rw [List.mem_singleton.mp hlocal]
      simp [t.name.className_component.1]
    · obtain ⟨name, -, rfl⟩ := List.mem_map.mp hlocal
      exact name.className_component.1
  · exact t.name.className_component.1

/-- No component of a qualified name is empty. -/
theorem names_component {t : TypeDescriptor} {path : List Bytes} (h : Names set.options t path) :
    ∀ component ∈ path, component ≠ [] := by
  induction h with
  | declared t hmap =>
    intro component hcomponent
    rw [List.mem_append, List.mem_append, List.mem_singleton] at hcomponent
    rcases hcomponent with (hfile | hlocal) | rfl
    · exact fileNamespace_component t.file component hfile
    · rw [TypeDescriptor.localNamespace] at hlocal
      split at hlocal
      · rw [List.mem_singleton.mp hlocal]
        simp [t.name.className_component.1]
      · obtain ⟨name, -, rfl⟩ := List.mem_map.mp hlocal
        exact (nestedNamespace_component name).1
    · exact t.name.className_component.1
  | @inClass outer inner path hfile hmessage hcontaining hother h ih =>
    intro component hcomponent
    rcases List.mem_append.mp hcomponent with hpath | hclass
    · exact ih component hpath
    · rw [List.mem_singleton.mp hclass]
      exact inner.name.className_component.1

/-! ## Names from everywhere -/

/-- The components of the name of a nested type. -/
theorem fullName_nested (set : FileSet) {t : TypeDescriptor} (hnested : t.containing ≠ []) :
    set.fullName t = set.extraComponents ++ ((if t.file.package = [] then [[]] else
      t.file.package.map (·.text)) ++ (t.containing.map (·.className) ++ [t.name.className])) := by
  have hglobal : ¬ t.isGlobalEnum = true := fun h => hnested (isGlobalEnum_iff.mp h).1
  rw [fullName, if_neg hglobal, fullNamespace, TypeDescriptor.writtenNamespace, if_neg hnested]
  simp only [List.append_assoc]

/-- The path of a nested type goes through the classes around it. -/
theorem classPath_nested (set : FileSet) {t : TypeDescriptor} (hnested : t.containing ≠ []) :
    set.classPath t = set.extraComponents ++ (t.file.packageNamespace ++
      (t.containing.map (·.className) ++ [t.name.className])) := by
  have hglobal : ¬ t.isGlobalEnum = true := fun h => hnested (isGlobalEnum_iff.mp h).1
  rw [classPath, if_neg hglobal, fileNamespace_eq]
  simp only [List.append_assoc]

/-- A name with the namespaces of its package is written in full. -/
theorem fullName_complete {t : TypeDescriptor}
    (h : t.containing = [] ∨ t.file.package ≠ [] ∧ t.file.isQtPackage = false)
    (hglobal : t.isGlobalEnum = true → fileNamespace set.options t.file ≠ []) :
    set.fullName t = set.classPath t := by
  by_cases hnested : t.containing = []
  · have hfull : set.fullNamespace t = fileNamespace set.options t.file := by
      rw [fullNamespace, TypeDescriptor.writtenNamespace, if_pos hnested, fileNamespace_eq]
    rw [fullName, classPath, gadgetNamespace, hfull]
    by_cases henum : t.isGlobalEnum = true
    · rw [if_pos henum, if_pos henum, if_neg (hglobal henum)]
    · rw [if_neg henum, if_neg henum, hnested, List.map_nil, List.append_nil]
  · obtain ⟨hpackage, hplain⟩ := h.resolve_left hnested
    rw [fullName_nested set hnested, classPath_nested set hnested, if_neg hpackage,
      FileDescriptor.packageNamespace, hplain]
    rfl

/-- The first component of a type's qualified name is declared in the global namespace. -/
theorem declares_classPath {t : TypeDescriptor} (ht : t ∈ set.types) (hmap : t.isMap = false)
    (hglobal : t.isGlobalEnum = true → fileNamespace set.options t.file ≠ []) {first : Bytes}
    {rest : List Bytes} (hpath : set.classPath t = first :: rest) : set.declares [] first = true := by
  rw [classPath, List.append_assoc] at hpath
  cases hfile : fileNamespace set.options t.file with
  | cons name names =>
    rw [hfile] at hpath
    obtain rfl := (List.cons.inj hpath).1
    exact declares_of_fileNamespace ht _ hfile
  | nil =>
    have henum : ¬ t.isGlobalEnum = true := fun h => hglobal h hfile
    rw [hfile, if_neg henum, List.nil_append] at hpath
    cases hcontaining : t.containing with
    | nil =>
      rw [hcontaining] at hpath
      obtain rfl := (List.cons.inj hpath).1
      have hclass := declares_className ht hmap
      rw [namespaces, hfile, t.localNamespace_nested (isEnum_of_not_global henum), hcontaining]
        at hclass
      exact hclass
    | cons outer inner =>
      rw [hcontaining] at hpath
      obtain rfl := (List.cons.inj hpath).1
      have houter := set.containing_mem t ht _
        (TypeDescriptor.mem_containingTypes.mpr ⟨[], outer, inner, hcontaining, rfl⟩)
      have hclass := declares_className houter rfl
      rw [namespaces, TypeDescriptor.localNamespace_nested _ (Or.inr rfl), hfile] at hclass
      exact hclass

/-- A nested type without a package has a name with double colons in front of the first class. -/
theorem denotes_unpackaged {t : TypeDescriptor} (hmap : t.isMap = false) (hnested : t.containing ≠ [])
    (hpackage : t.file.package = []) (place : List Bytes) :
    set.Denotes place (join (ascii "::") (set.fullName t)) t ↔
      ClassesDiffer (t.containing ++ [t.name]) ∧ set.Unshared (set.classPath t) t ∧
        set.extraNamespaces = [] := by
  have hsplit : splitName (join (ascii "::") (set.fullName t)) = set.fullName t :=
    splitName_join_className (fullName_colon t)
  rw [fullName_nested set hnested, if_pos hpackage] at hsplit ⊢
  have hplain : t.file.packageNamespace = [] := by
    rw [FileDescriptor.packageNamespace, FileDescriptor.isQtPackage, hpackage]
    rfl
  cases hextra : set.extraNamespaces with
  | nil =>
    have hnone : set.extraComponents = [] := by rw [extraComponents, hextra]; rfl
    have hpath := classPath_nested set hnested
    rw [hnone, hplain, List.nil_append, List.nil_append] at hpath
    rw [hnone] at hsplit ⊢
    have hnames := names_classPath_iff set hmap
    rw [hpath] at hnames
    rw [denotes_absolute_iff hsplit, hpath]
    simp [hnames]
  | cons name names =>
    have hsome : set.extraComponents = name.text :: names.map (·.text) := by
      rw [extraComponents, hextra]
      rfl
    rw [hsome] at hsplit ⊢
    rw [denotes_iff hsplit name.text_component.1]
    refine iff_of_false ?_ (by simp)
    rintro ⟨outer, -, -, -, hnames, -⟩
    exact names_component hnames [] (by simp) rfl

/-- The name of a nested type of a package kept apart from Qt lacks the namespace it is kept in. -/
theorem denotes_qtPackage {t : TypeDescriptor} (ht : t ∈ set.types) (hmap : t.isMap = false)
    (hnested : t.containing ≠ []) (hqt : t.file.isQtPackage = true) (place : List Bytes) :
    set.Denotes place (join (ascii "::") (set.fullName t)) t ↔
      ClassesDiffer (t.containing ++ [t.name]) ∧ set.Unshared (set.classPath t) t ∧
        place.take 1 ++ set.extraComponents = set.extraComponents ++ [ascii "QtProtobufPrivate"] ∧
          Unhidden set.declares place 1
            ((set.extraComponents ++ t.file.package.map (·.text)).headD []) := by
  have hsplit : splitName (join (ascii "::") (set.fullName t)) = set.fullName t :=
    splitName_join_className (fullName_colon t)
  have hpackage : t.file.package ≠ [] := by
    intro hnil
    rw [FileDescriptor.isQtPackage, hnil] at hqt
    exact absurd hqt (by decide)
  have hfile : fileNamespace set.options t.file =
      set.extraComponents ++ [ascii "QtProtobufPrivate"] ++ t.file.package.map (·.text) := by
    rw [fileNamespace_eq, FileDescriptor.packageNamespace, if_pos hqt, List.append_assoc]
  have hfull := fullName_nested set hnested
  rw [if_neg hpackage, ← List.append_assoc] at hfull
  have hpath : set.classPath t = set.extraComponents ++ [ascii "QtProtobufPrivate"] ++
      t.file.package.map (·.text) ++ (t.containing.map (·.className) ++ [t.name.className]) := by
    rw [classPath_nested set hnested, FileDescriptor.packageNamespace, if_pos hqt]
    simp only [List.append_assoc]
  obtain ⟨first, front, hfirst⟩ : ∃ first front,
      set.extraComponents ++ t.file.package.map (·.text) = first :: front :=
    List.exists_cons_of_ne_nil (by simp [hpackage])
  have hfirstNe : first ≠ [] := by
    have hmem : first ∈ set.extraComponents ++ t.file.package.map (·.text) := by
      rw [hfirst]
      exact List.mem_cons_self
    rcases List.mem_append.mp hmem with hextra | hname
    · exact (extraComponents_component set first hextra).1
    · obtain ⟨name, -, rfl⟩ := List.mem_map.mp hname
      exact name.text_component.1
  have hcons : set.fullName t =
      first :: (front ++ (t.containing.map (·.className) ++ [t.name.className])) := by
    rw [hfull, hfirst]
    rfl
  rw [hcons] at hsplit ⊢
  rw [denotes_iff hsplit hfirstNe, ← hcons, hfirst, List.headD_cons]
  -- behind the right namespace the name is that of the class
  have hcomplete : place.take 1 ++ set.extraComponents =
      set.extraComponents ++ [ascii "QtProtobufPrivate"] →
      place.take 1 ++ set.fullName t = set.classPath t := by
    intro hplace
    rw [hfull, hpath, ← hplace]
    simp only [List.append_assoc]
  constructor
  · rintro ⟨outer, houter, hdeclared, hunhidden, hnames, hunshared⟩
    obtain rfl : outer = 1 := by
      apply eq_of_names hmap [ascii "QtProtobufPrivate"] houter hnames
      rw [← classPath_length set t, hfull, hpath]
      simp only [List.length_append, List.length_singleton]
      omega
    obtain ⟨i, hi, hmixed, -⟩ := hnames.exists_take (Or.inl hnested)
    have hparts : (place.take 1 ++ set.extraComponents) ++ (t.file.package.map (·.text) ++
        (t.containing.map (·.className) ++ [t.name.className])) =
        (set.extraComponents ++ [ascii "QtProtobufPrivate"]) ++ (t.file.package.map (·.text) ++
          ((t.containing.take i).map (·.nestedNamespace) ++
            ((t.containing.drop i).map (·.className) ++ [t.name.className]))) := by
      rw [hfull, hfile] at hmixed
      simpa only [List.append_assoc] using hmixed
    have hplace := (List.append_inj hparts (by simp [List.length_take]; omega)).1
    rw [hcomplete hplace] at hnames hunshared
    exact ⟨(names_classPath_iff set hmap).mp hnames, hunshared, hplace, hunhidden⟩
  · rintro ⟨hdiffer, hunshared, hplace, hunhidden⟩
    have hlength := congrArg List.length hplace
    simp only [List.length_append, List.length_take, List.length_singleton] at hlength
    refine ⟨1, by omega, ?_, hunhidden, ?_, ?_⟩
    · apply declares_of_fileNamespace ht front
      rw [hfile, ← hplace, List.append_assoc, hfirst]
    · rw [hcomplete hplace]
      exact (names_classPath_iff set hmap).mpr hdiffer
    · rw [hcomplete hplace]
      exact hunshared

/-- A complete name is found unless a nearer namespace declares what it begins with. -/
theorem denotes_complete {t : TypeDescriptor} (ht : t ∈ set.types) (hmap : t.isMap = false)
    (h : t.containing = [] ∨ t.file.package ≠ [] ∧ t.file.isQtPackage = false)
    (place : List Bytes) :
    set.Denotes place (join (ascii "::") (set.fullName t)) t ↔
      ClassesDiffer (t.containing ++ [t.name]) ∧ set.Unshared (set.classPath t) t ∧
        (t.isGlobalEnum = true ∧ fileNamespace set.options t.file = [] ∨
          Unhidden set.declares place 0 ((set.classPath t).headD [])) := by
  have hsplit : splitName (join (ascii "::") (set.fullName t)) = set.fullName t :=
    splitName_join_className (fullName_colon t)
  by_cases habsolute : t.isGlobalEnum = true ∧ fileNamespace set.options t.file = []
  · obtain ⟨hglobal, hfile⟩ := habsolute
    have hempty : set.fullNamespace t = [] := by
      rw [fullNamespace, TypeDescriptor.writtenNamespace, if_pos (isGlobalEnum_iff.mp hglobal).1,
        ← fileNamespace_eq, hfile]
    have hfull : set.fullName t = [] :: set.classPath t := by
      rw [fullName, classPath, if_pos hglobal, if_pos hglobal, gadgetNamespace, if_pos hempty, hfile]
      rfl
    rw [hfull] at hsplit ⊢
    rw [denotes_absolute_iff hsplit, names_classPath_iff set hmap]
    simp [hglobal, hfile]
  · rw [not_and] at habsolute
    obtain ⟨first, rest, hpath⟩ : ∃ first rest, set.classPath t = first :: rest :=
      List.exists_cons_of_ne_nil (by simp [classPath])
    have hfirst : first ≠ [] :=
      classPath_component t first (by rw [hpath]; exact List.mem_cons_self)
    have hhead : (set.classPath t).headD [] = first := by rw [hpath]; rfl
    rw [fullName_complete h habsolute, hpath] at hsplit ⊢
    rw [denotes_iff hsplit hfirst, ← hpath, hhead]
    constructor
    · rintro ⟨outer, houter, hdeclared, hunhidden, hnames, hunshared⟩
      obtain rfl : outer = 0 :=
        eq_of_names hmap [] houter hnames (classPath_length set t)
      exact ⟨(names_classPath_iff set hmap).mp hnames, hunshared, Or.inr hunhidden⟩
    · rintro ⟨hdiffer, hunshared, hfound⟩
      have hunhidden := hfound.resolve_left fun h => habsolute h.1 h.2
      exact ⟨0, Nat.zero_le _, declares_classPath ht hmap habsolute hpath, hunhidden,
        (names_classPath_iff set hmap).mpr hdiffer, hunshared⟩

/-- `full_type` is found from some place exactly if it is complete there and not hidden. -/
theorem denotes_fullName_iff {t : TypeDescriptor} (ht : t ∈ set.types) (hmap : t.isMap = false)
    (place : List Bytes) :
    set.Denotes place (join (ascii "::") (set.fullName t)) t ↔ set.FullResolves place t := by
  rw [FullResolves]
  by_cases hnested : t.containing = []
  · rw [if_neg fun h => h.1 hnested, if_neg fun h => h.1 hnested]
    exact denotes_complete ht hmap (Or.inl hnested) place
  · by_cases hpackage : t.file.package = []
    · rw [if_pos ⟨hnested, hpackage⟩]
      exact denotes_unpackaged hmap hnested hpackage place
    · rw [if_neg fun h => hpackage h.2]
      by_cases hqt : t.file.isQtPackage = true
      · rw [if_pos ⟨hnested, hqt⟩]
        exact denotes_qtPackage ht hmap hnested hqt place
      · rw [if_neg fun h => hqt h.2]
        exact denotes_complete ht hmap (Or.inr ⟨hpackage, Bool.not_eq_true _ ▸ hqt⟩) place

/-! ## Names from the place of a message -/

/-- The namespace for the types nested in a message around a type. -/
theorem declares_containing {t : TypeDescriptor} (ht : t ∈ set.types) (hmap : t.isMap = false)
    {front back : List Identifier} {name : Identifier}
    (hcontaining : t.containing = front ++ name :: back) :
    set.declares (fileNamespace set.options t.file ++ front.map (·.nestedNamespace))
      name.nestedNamespace = true := by
  have houter := set.containing_mem t ht _
    (TypeDescriptor.mem_containingTypes.mpr ⟨front, name, back, hcontaining, rfl⟩)
  have hnested : ∃ inner ∈ set.types, inner.isMap = false ∧ inner.file = t.file ∧
      inner.containing = front ++ [name] := by
    cases back with
    | nil => exact ⟨t, ht, hmap, rfl, hcontaining⟩
    | cons next back =>
      rw [List.append_cons] at hcontaining
      exact ⟨_, set.containing_mem t ht _ (TypeDescriptor.mem_containingTypes.mpr
        ⟨front ++ [name], next, back, hcontaining, rfl⟩), rfl, rfl, rfl⟩
  obtain ⟨inner, hinner, hinnerMap, hfile, hinnerContaining⟩ := hnested
  have hdeclared := declares_nestedNamespace houter rfl hinner hinnerMap hfile hinnerContaining
  rw [namespaces, TypeDescriptor.localNamespace_nested _ (Or.inr rfl)] at hdeclared
  exact hdeclared

/-- The place of a message is the file's namespace and the nested namespaces around it. -/
theorem place_message (set : FileSet) {scope : TypeDescriptor} (hscope : scope.kind = .message) :
    set.place scope = fileNamespace set.options scope.file ++
      scope.containing.map (·.nestedNamespace) := by
  rw [place, namespaces,
    scope.localNamespace_nested (Or.inr (TypeDescriptor.isEnum_of_message hscope))]

/-- Files of one package have the same namespace. -/
theorem fileNamespace_of_packageName {file other : FileDescriptor}
    (h : file.packageName = other.packageName) :
    fileNamespace set.options file = fileNamespace set.options other := by
  rw [fileNamespace, fileNamespace, h]

/-- A part of a type's declared name, from behind some of the namespaces around a message. -/
theorem denotes_declared {t : TypeDescriptor} (hmap : t.isMap = false) {place : List Bytes}
    {name : Bytes} {outer : Nat} {first : Bytes} {rest : List Bytes}
    (hsplit : splitName name = first :: rest) (hfirst : first ≠ [])
    (houter : outer ≤ place.length)
    (hpath : place.take outer ++ first :: rest = set.declaredPath t)
    (hdeclared : set.declares (place.take outer) first = true) :
    set.Denotes place name t ↔
      Unhidden set.declares place outer first ∧ set.Unshared (set.declaredPath t) t := by
  rw [denotes_iff hsplit hfirst]
  constructor
  · rintro ⟨outer', houter', -, hunhidden, hnames, hunshared⟩
    obtain rfl : outer' = outer := by
      have heq := eq_of_names hmap (place.take outer) houter' hnames (by rw [hpath])
      rw [heq, List.length_take]
      omega
    rw [hpath] at hunshared
    exact ⟨hunhidden, hunshared⟩
  · rintro ⟨hunhidden, hunshared⟩
    refine ⟨outer, houter, hdeclared, hunhidden, ?_, ?_⟩
    · rw [hpath]
      exact names_declaredPath set hmap
    · rw [hpath]
      exact hunshared

/-- A message finds the types nested in it, at any depth. -/
theorem denotes_inside {t scope : TypeDescriptor} (ht : t ∈ set.types) (hmap : t.isMap = false)
    (hinside : scope ∈ t.containingTypes) :
    set.Denotes (set.place scope) (join (ascii "::")
        ((scopeContaining t scope).map (·.nestedNamespace) ++ [t.name.className])) t ↔
      set.Unshared (set.declaredPath t) t := by
  obtain ⟨front, name, back, hcontaining, rfl⟩ := TypeDescriptor.mem_containingTypes.mp hinside
  have hplace : set.place { file := t.file, containing := front, name, kind := .message } =
      fileNamespace set.options t.file ++ front.map (·.nestedNamespace) :=
    place_message set rfl
  have hcomponents : scopeContaining t { file := t.file, containing := front, name, kind := .message } =
      name :: back := by
    rw [scopeContaining, if_pos hinside, hcontaining, List.drop_left]
  rw [hcomponents, List.map_cons, List.cons_append]
  have hne : t.containing ≠ [] := by rw [hcontaining]; simp
  have hpath : fileNamespace set.options t.file ++ front.map (·.nestedNamespace) ++
      name.nestedNamespace :: (back.map (·.nestedNamespace) ++ [t.name.className]) =
      set.declaredPath t := by
    rw [declaredPath, namespaces, t.localNamespace_nested (Or.inl hne), hcontaining, List.map_append]
    simp
  have hsplit : splitName (join (ascii "::")
      (name.nestedNamespace :: (back.map (·.nestedNamespace) ++ [t.name.className]))) =
      name.nestedNamespace :: (back.map (·.nestedNamespace) ++ [t.name.className]) := by
    rw [← List.cons_append]
    apply splitName_join_className
    intro component hcomponent
    rw [List.cons_append, List.mem_cons, List.mem_append, List.mem_map, List.mem_singleton]
      at hcomponent
    rcases hcomponent with rfl | ⟨inner, -, rfl⟩ | rfl
    · exact (nestedNamespace_component name).2
    · exact (nestedNamespace_component inner).2
    · exact t.name.className_component.2.1
  rw [denotes_declared hmap hsplit (nestedNamespace_component name).1 (Nat.le_refl _)]
  · exact and_iff_right (NameLookup.unhidden_length _)
  · rw [List.take_length, hplace]
    exact hpath
  · rw [List.take_length, hplace]
    exact declares_containing ht hmap hcontaining

/-- A name within the namespace of a file is found from there unless a namespace around the message
declares what it begins with. -/
theorem denotes_beside {t scope : TypeDescriptor} (ht : t ∈ set.types) (hmap : t.isMap = false)
    (hscope : scope.kind = .message) (hglobal : ¬ t.isGlobalEnum = true)
    (hpackage : scope.file.packageName = t.file.packageName) :
    set.Denotes (set.place scope) (join (ascii "::")
        (t.containing.map (·.nestedNamespace) ++ [t.name.className])) t ↔
      Unhidden set.declares (set.place scope) (fileNamespace set.options t.file).length
        ((t.localNamespace ++ [t.name.className]).headD []) ∧
      set.Unshared (set.declaredPath t) t := by
  have hlocal := t.localNamespace_nested (isEnum_of_not_global hglobal)
  have hplace := place_message set hscope
  rw [fileNamespace_of_packageName hpackage] at hplace
  have hsplit : splitName (join (ascii "::")
      (t.containing.map (·.nestedNamespace) ++ [t.name.className])) =
      t.containing.map (·.nestedNamespace) ++ [t.name.className] := by
    apply splitName_join_className
    intro component hcomponent
    rcases List.mem_append.mp hcomponent with hnested | hclass
    · obtain ⟨name, -, rfl⟩ := List.mem_map.mp hnested
      exact (nestedNamespace_component name).2
    · rw [List.mem_singleton.mp hclass]
      exact t.name.className_component.2.1
  obtain ⟨first, rest, hfirst⟩ : ∃ first rest,
      t.containing.map (·.nestedNamespace) ++ [t.name.className] = first :: rest :=
    List.exists_cons_of_ne_nil (by simp)
  have hdeclared : first ≠ [] ∧ set.declares (fileNamespace set.options t.file) first = true := by
    cases hcontaining : t.containing with
    | nil =>
      rw [hcontaining] at hfirst
      obtain rfl := (List.cons.inj hfirst).1
      have hclass := declares_className ht hmap
      rw [namespaces, hlocal, hcontaining, List.map_nil, List.append_nil] at hclass
      exact ⟨t.name.className_component.1, hclass⟩
    | cons name back =>
      rw [hcontaining] at hfirst
      obtain rfl := (List.cons.inj hfirst).1
      have hnested := declares_containing ht hmap (hcontaining.trans (List.nil_append _).symm)
      rw [List.map_nil, List.append_nil] at hnested
      exact ⟨(nestedNamespace_component name).1, hnested⟩
  rw [hlocal, hfirst, List.headD_cons]
  rw [hfirst] at hsplit
  have htake : (set.place scope).take (fileNamespace set.options t.file).length =
      fileNamespace set.options t.file := by rw [hplace, List.take_left]
  apply denotes_declared hmap hsplit hdeclared.1
  · rw [hplace, List.length_append]
    omega
  · rw [htake, ← hfirst, declaredPath, namespaces, hlocal, List.append_assoc]
  · rw [htake]
    exact hdeclared.2

/-- A type outside all messages has its file's namespace. -/
theorem fullNamespace_topLevel (set : FileSet) {t : TypeDescriptor} (h : t.containing = []) :
    set.fullNamespace t = fileNamespace set.options t.file := by
  rw [fullNamespace, TypeDescriptor.writtenNamespace, if_pos h, fileNamespace_eq]

/-- Each component of the name of a global enumeration is declared in those before it. -/
theorem declares_gadgetPath {t : TypeDescriptor} (ht : t ∈ set.types) (hmap : t.isMap = false)
    (hglobal : t.isGlobalEnum = true) {outer rest back : List Bytes} {first : Bytes}
    (h : outer ++ rest = set.namespaces t) (hfirst : rest ++ [t.name.className] = first :: back) :
    set.declares outer first = true := by
  obtain ⟨hcontaining, henum⟩ := isGlobalEnum_iff.mp hglobal
  rcases List.eq_nil_or_concat rest with rfl | ⟨rest, last, rfl⟩
  · obtain rfl := (List.cons.inj hfirst).1
    rw [List.append_nil] at h
    rw [h]
    exact declares_className ht hmap
  · rw [namespaces, localNamespace_global hglobal, List.concat_eq_append, ← List.append_assoc] at h
    obtain ⟨hfile, hlast⟩ := List.append_inj' h rfl
    obtain rfl := List.singleton_inj.mp hlast
    cases rest with
    | nil =>
      obtain rfl := (List.cons.inj hfirst).1
      rw [List.append_nil] at hfile
      rw [hfile]
      exact declares_gadget ht henum hcontaining
    | cons name rest =>
      obtain rfl := (List.cons.inj hfirst).1
      exact declares_of_fileNamespace ht _ hfile.symm

/-- What a top-level message in an outer namespace leaves of the name of an enumeration is found. -/
theorem denotes_gadget {t scope : TypeDescriptor} (ht : t ∈ set.types) (hmap : t.isMap = false)
    (hscope : scope.kind = .message) (hglobal : t.isGlobalEnum = true)
    (hcontaining : scope.containing = []) (hne : set.fullNamespace scope ≠ [])
    (hstarts : set.fullNamespace scope <+: set.gadgetNamespace t) :
    set.Denotes (set.place scope) (join (ascii "::")
        ((set.gadgetNamespace t).drop (set.fullNamespace scope).length ++ [t.name.className])) t ↔
      set.Unshared (set.classPath t) t := by
  have hplace : set.place scope = set.fullNamespace scope := by
    rw [place_message set hscope, hcontaining, fullNamespace_topLevel set hcontaining, List.map_nil,
      List.append_nil]
  have hlocal := localNamespace_global hglobal
  have hdeclaredPath : set.declaredPath t = set.classPath t := by
    rw [declaredPath, classPath, namespaces, hlocal, if_pos hglobal]
  have hfile : set.gadgetNamespace t = set.namespaces t := by
    rw [namespaces, hlocal, gadgetNamespace, ← fullNamespace_topLevel set (isGlobalEnum_iff.mp hglobal).1]
    by_cases hnil : set.fullNamespace t = []
    · -- the written name begins with double colons, which no namespace does
      rw [gadgetNamespace, if_pos hnil] at hstarts
      obtain ⟨rest, hrest⟩ := hstarts
      obtain ⟨name, names, hnames⟩ := List.exists_cons_of_ne_nil hne
      rw [hnames] at hrest
      have hmem : name ∈ fileNamespace set.options scope.file := by
        rw [← fullNamespace_topLevel set hcontaining, hnames]
        exact List.mem_cons_self
      exact absurd (List.cons.inj hrest).1 (fileNamespace_component _ _ hmem)
    · rw [if_neg hnil]
  obtain ⟨rest, hrest⟩ := hstarts
  rw [← hrest, List.drop_left]
  have hcolon : ∀ component ∈ rest ++ [t.name.className], 58 ∉ component := by
    intro component hcomponent
    rcases List.mem_append.mp hcomponent with hinner | hclass
    · exact gadgetNamespace_colon t component (by rw [← hrest]; exact List.mem_append_right _ hinner)
    · rw [List.mem_singleton.mp hclass]
      exact t.name.className_component.2.1
  have hsplit := splitName_join_className hcolon
  obtain ⟨first, back, hfirst⟩ : ∃ first back, rest ++ [t.name.className] = first :: back :=
    List.exists_cons_of_ne_nil (by simp)
  have hpath : set.place scope ++ first :: back = set.declaredPath t := by
    rw [← hfirst, hplace, ← List.append_assoc, hrest, hfile]
    rfl
  have hfirstNe : first ≠ [] := by
    apply names_component (names_declaredPath set hmap)
    rw [← hpath]
    simp
  have hdeclared : set.declares (set.place scope) first = true :=
    declares_gadgetPath ht hmap hglobal (by rw [hplace, hrest, hfile]) hfirst
  rw [hfirst] at hsplit ⊢
  rw [denotes_declared hmap hsplit hfirstNe (Nat.le_refl _), hdeclaredPath]
  · exact and_iff_right (NameLookup.unhidden_length _)
  · rw [List.take_length, hpath]
  · rw [List.take_length]
    exact hdeclared

/-- The namespaces that are written in front of a nested message are not those around it. -/
theorem fullNamespace_not_prefix (set : FileSet) {scope : TypeDescriptor} (hscope : scope.kind = .message)
    (hcontaining : scope.containing ≠ []) : ¬ set.fullNamespace scope <+: set.place scope := by
  rw [place_message set hscope, fileNamespace_eq, fullNamespace, TypeDescriptor.writtenNamespace,
    if_neg hcontaining, List.append_assoc, List.prefix_append_right_inj]
  obtain ⟨name, names, hnames⟩ := List.exists_cons_of_ne_nil hcontaining
  rw [hnames, List.map_cons, List.map_cons]
  by_cases hpackage : scope.file.package = []
  · have hplain : scope.file.packageNamespace = [] := by
      rw [FileDescriptor.packageNamespace, FileDescriptor.isQtPackage, hpackage]
      rfl
    rw [if_pos hpackage, hplain]
    intro hstarts
    exact (nestedNamespace_component name).1 (List.cons_prefix_cons.mp hstarts).1.symm
  · rw [if_neg hpackage, FileDescriptor.packageNamespace]
    by_cases hqt : scope.file.isQtPackage = true
    · rw [if_pos hqt]
      intro hstarts
      rw [FileDescriptor.isQtPackage, Bool.or_eq_true, decide_eq_true_eq, decide_eq_true_eq] at hqt
      rcases hqt with hcore | hgui
      · rw [hcore] at hstarts
        exact absurd (List.cons_prefix_cons.mp hstarts).1 (by decide)
      · rw [hgui] at hstarts
        exact absurd (List.cons_prefix_cons.mp hstarts).1 (by decide)
    · rw [if_neg hqt, List.nil_append, List.prefix_append_right_inj]
      intro hstarts
      exact className_ne_nestedNamespace name (List.cons_prefix_cons.mp hstarts).1

/-- Neither are they if no namespace is written in front of the classes. -/
theorem absolute_not_prefix {scope : TypeDescriptor} (hscope : scope.kind = .message)
    (hcontaining : scope.containing ≠ []) {classes : List Bytes}
    (h : set.fullNamespace scope = [] :: classes) : ¬ classes <+: set.place scope := by
  rw [fullNamespace, TypeDescriptor.writtenNamespace, if_neg hcontaining] at h
  have hextra : set.extraComponents = [] := by
    cases hextra : set.extraComponents with
    | nil => rfl
    | cons component components =>
      rw [hextra] at h
      exact absurd (List.cons.inj h).1 (extraComponents_component set component
        (by rw [hextra]; exact List.mem_cons_self)).1
  have hpackage : scope.file.package = [] := by
    cases hpackage : scope.file.package with
    | nil => rfl
    | cons name names =>
      rw [hextra, hpackage] at h
      exact absurd (List.cons.inj h).1 name.text_component.1
  have hplain : scope.file.packageNamespace = [] := by
    rw [FileDescriptor.packageNamespace, FileDescriptor.isQtPackage, hpackage]
    rfl
  rw [hextra, if_pos hpackage] at h
  obtain rfl := (List.cons.inj h).2
  obtain ⟨name, names, hnames⟩ := List.exists_cons_of_ne_nil hcontaining
  rw [place_message set hscope, fileNamespace_eq, hextra, hplain, hnames]
  intro hstarts
  exact className_ne_nestedNamespace name (List.cons_prefix_cons.mp hstarts).1

/-- A global enumeration has no other name than that of its declaration. -/
theorem names_global {t : TypeDescriptor} {path : List Bytes} (h : Names set.options t path)
    (hglobal : t.isGlobalEnum = true) : path = set.namespaces t ++ [t.name.className] := by
  cases h with
  | declared t hmap => rfl
  | inClass hfile hmessage hcontaining hother h =>
    rw [(isGlobalEnum_iff.mp hglobal).1] at hcontaining
    simp at hcontaining

/-- Only the first component of an enumeration's namespace is written empty. -/
theorem gadgetNamespace_tail {t : TypeDescriptor} (hglobal : t.isGlobalEnum = true) :
    ∀ component ∈ (set.gadgetNamespace t).tail, component ≠ [] := by
  intro component hcomponent
  have hgadget : t.name.className ++ enumClassSuffix ≠ [] := by simp [t.name.className_component.1]
  rw [gadgetNamespace, fullNamespace_topLevel set (isGlobalEnum_iff.mp hglobal).1] at hcomponent
  split at hcomponent
  · rw [List.mem_singleton.mp hcomponent]
    exact hgadget
  · rcases List.mem_append.mp (List.mem_of_mem_tail hcomponent) with hfile | hlast
    · exact fileNamespace_component t.file component hfile
    · rw [List.mem_singleton.mp hlast]
      exact hgadget

/-- What a nested message leaves of the name of an enumeration is not found. -/
theorem not_denotes_gadget {t scope : TypeDescriptor} (hscope : scope.kind = .message)
    (hglobal : t.isGlobalEnum = true) (hcontaining : scope.containing ≠ [])
    (hne : set.fullNamespace scope ≠ []) (hstarts : set.fullNamespace scope <+: set.gadgetNamespace t) :
    ¬ set.Denotes (set.place scope) (join (ascii "::")
        ((set.gadgetNamespace t).drop (set.fullNamespace scope).length ++ [t.name.className])) t := by
  obtain ⟨rest, hrest⟩ := hstarts
  rw [← hrest, List.drop_left]
  have hcolon : ∀ component ∈ rest ++ [t.name.className], 58 ∉ component := by
    intro component hcomponent
    rcases List.mem_append.mp hcomponent with hinner | hclass
    · exact gadgetNamespace_colon t component (by rw [← hrest]; exact List.mem_append_right _ hinner)
    · rw [List.mem_singleton.mp hclass]
      exact t.name.className_component.2.1
  have hsplit := splitName_join_className hcolon
  obtain ⟨first, back, hfirst⟩ : ∃ first back, rest ++ [t.name.className] = first :: back :=
    List.exists_cons_of_ne_nil (by simp)
  have hlocal := localNamespace_global hglobal
  have hfile := fullNamespace_topLevel set (isGlobalEnum_iff.mp hglobal).1
  have hfirstNe : first ≠ [] := by
    have hmem : first ∈ rest ++ [t.name.className] := by
      rw [hfirst]
      exact List.mem_cons_self
    rcases List.mem_append.mp hmem with hinner | hclass
    · apply gadgetNamespace_tail hglobal
      rw [← hrest, List.tail_append_of_ne_nil hne]
      exact List.mem_append_right _ hinner
    · rw [List.mem_singleton.mp hclass]
      exact t.name.className_component.1
  rw [hfirst] at hsplit ⊢
  rw [denotes_iff hsplit hfirstNe]
  rintro ⟨outer, -, -, -, hnames, -⟩
  have hpath := names_global hnames hglobal
  rw [← hfirst, ← List.append_assoc] at hpath
  have hnamespaces := (List.append_inj' hpath rfl).1
  rw [namespaces, hlocal, ← hfile] at hnamespaces
  rw [gadgetNamespace] at hrest
  by_cases hnil : set.fullNamespace t = []
  · rw [hnil, List.nil_append] at hnamespaces
    rw [if_pos hnil, ← hnamespaces, List.singleton_append, ← List.cons_append] at hrest
    exact absolute_not_prefix hscope hcontaining (List.append_cancel_right hrest)
      (List.take_prefix _ _)
  · rw [if_neg hnil, ← hnamespaces] at hrest
    have hnot := fullNamespace_not_prefix set hscope hcontaining
    rw [List.append_cancel_right hrest] at hnot
    exact hnot (List.take_prefix _ _)

/-! ## References -/

variable (set)

/-- The condition for `scope_type` to be found. In another package it is `full_type`, and so is the
name of an enumeration outside of messages unless the namespace that is written for the message is
one around it. A message finds what is nested in it; otherwise no namespace around it may declare
what the name begins with. -/
def ScopeResolves (t scope : TypeDescriptor) : Prop :=
  if t.isGlobalEnum = true then
    if set.fullNamespace scope ≠ [] ∧ set.fullNamespace scope <+: set.gadgetNamespace t then
      scope.containing = [] ∧ set.Unshared (set.classPath t) t
    else set.FullResolves (set.place scope) t
  else if scope.file.packageName ≠ t.file.packageName then set.FullResolves (set.place scope) t
  else
    (scope ∈ t.containingTypes ∨
      Unhidden set.declares (set.place scope) (fileNamespace set.options t.file).length
        ((t.localNamespace ++ [t.name.className]).headD [])) ∧
    set.Unshared (set.declaredPath t) t

instance (t scope : TypeDescriptor) : Decidable (set.ScopeResolves t scope) :=
  inferInstanceAs (Decidable (ite _ (ite _ _ _) (ite _ _ _)))

variable {set}

/-- The shortened name denotes the type exactly when it resolves from the message. -/
theorem denotes_scopeName_iff {t scope : TypeDescriptor} (ht : t ∈ set.types)
    (hmap : t.isMap = false) (hscope : scope.kind = .message) :
    set.Denotes (set.place scope) (join (ascii "::") (set.scopeName t scope)) t ↔
      set.ScopeResolves t scope := by
  have hfull := denotes_fullName_iff ht hmap (set.place scope)
  rw [scopeName, ScopeResolves]
  by_cases hglobal : t.isGlobalEnum = true
  · rw [if_pos hglobal, if_pos hglobal]
    by_cases hcut : set.fullNamespace scope ≠ [] ∧ set.fullNamespace scope <+: set.gadgetNamespace t
    · rw [if_pos hcut, if_pos hcut]
      by_cases hcontaining : scope.containing = []
      · rw [denotes_gadget ht hmap hscope hglobal hcontaining hcut.1 hcut.2, and_iff_right hcontaining]
      · refine iff_of_false (not_denotes_gadget hscope hglobal hcontaining hcut.1 hcut.2) ?_
        exact fun h => hcontaining h.1
    · rw [if_neg hcut, if_neg hcut, ← hfull, fullName, if_pos hglobal]
  · rw [if_neg hglobal, if_neg hglobal]
    by_cases hpackage : scope.file.packageName ≠ t.file.packageName
    · rw [if_pos hpackage, if_pos hpackage]
      exact hfull
    · rw [if_neg hpackage, if_neg hpackage]
      by_cases hinside : scope ∈ t.containingTypes
      · rw [denotes_inside ht hmap hinside, and_iff_right (Or.inl hinside)]
      · rw [scopeContaining, if_neg hinside,
          denotes_beside ht hmap hscope hglobal (not_not.mp hpackage), or_iff_right hinside]

/-- The names that a message refers to a type by denote the class or the enumeration that is
generated for it exactly if they are complete where the message is generated and no nearer
declaration hides what they begin with. -/
theorem typeMap_denotes_iff {t scope : TypeDescriptor} (ht : t ∈ set.types)
    (hscope : scope ∈ set.types) (hmap : t.isMap = false) (hmessage : scope.kind = .message) :
    set.Denotes (set.place scope) (set.typeMap t scope).scopeType t ∧
        set.Denotes (set.place scope) (set.typeMap t scope).fullType t ↔
      set.ScopeResolves t scope ∧ set.FullResolves (set.place scope) t := by
  rw [typeMap_scopeType ht hscope hmap, typeMap_fullType ht]
  exact and_congr (denotes_scopeName_iff ht hmap hmessage) (denotes_fullName_iff ht hmap _)

/-! ## Names that are not found -/

/-- The file of the types below. -/
def repeatedFile : FileDescriptor where
  name := ascii "nested.proto"
  package := [⟨ascii "nested", by decide, by decide, by decide⟩]

/-- A name that is used at two levels. -/
def outerName : Identifier := ⟨ascii "Outer", by decide, by decide, by decide⟩

/-- The name of the message between them. -/
def midName : Identifier := ⟨ascii "Mid", by decide, by decide, by decide⟩

/-- `Outer`. -/
def outerType : TypeDescriptor where
  file := repeatedFile
  name := outerName

/-- `Outer.T`. -/
def referredType : TypeDescriptor where
  file := repeatedFile
  containing := [outerName]
  name := ⟨ascii "T", by decide, by decide, by decide⟩

/-- `Outer.Mid.S`, which refers to it. -/
def referringType : TypeDescriptor where
  file := repeatedFile
  containing := [outerName, midName]
  name := ⟨ascii "S", by decide, by decide, by decide⟩

/-- The two messages, those around them and `Outer.Mid.Outer`. -/
def repeatedName : FileSet :=
  .ofTypes [outerType, referredType,
    { file := repeatedFile, containing := [outerName], name := midName },
    { file := repeatedFile, containing := [outerName, midName], name := outerName }, referringType]
    (by decide)

/-- `Outer.Outer`. -/
def innerType : TypeDescriptor where
  file := repeatedFile
  containing := [outerName]
  name := outerName

/-- A message in another one of its name. -/
def nestedName : FileSet := .ofTypes [outerType, innerType] (by decide)

/-- `T_QtProtobufData`. -/
def dataType : TypeDescriptor where
  file := repeatedFile
  name := ⟨ascii "T_QtProtobufData", by decide, by decide, by decide⟩

/-- `Outer.S`, which refers to it. -/
def besideType : TypeDescriptor where
  file := repeatedFile
  containing := [outerName]
  name := ⟨ascii "S", by decide, by decide, by decide⟩

/-- The two messages and `Outer.T`. -/
def dataName : FileSet := .ofTypes [outerType, referredType, dataType, besideType] (by decide)

/-- In the sample both names denote the type. -/
theorem typeMap_denotes_sample :
    dataName.Denotes (dataName.place besideType) (dataName.typeMap referredType besideType).scopeType
        referredType ∧
      dataName.Denotes (dataName.place besideType) (dataName.typeMap referredType besideType).fullType
        referredType :=
  (typeMap_denotes_iff (by decide) (by decide) (by decide) (by decide)).mpr
    ⟨by decide +kernel, by decide +kernel⟩

/-- The namespace beside `Outer.Mid.Outer` hides the one that `Outer.T` is declared in, the name of
`Outer.Outer` is that of a constructor, and the class for the data of `Outer.T` hides a message. -/
theorem types_hidden :
    ((referredType ∈ repeatedName.types ∧ referringType ∈ repeatedName.types) ∧
      (repeatedName.typeMap referredType referringType).scopeType =
        ascii "Outer_QtProtobufNested::T" ∧
      ¬ repeatedName.Denotes (repeatedName.place referringType)
        (repeatedName.typeMap referredType referringType).scopeType referredType) ∧
    ((innerType ∈ nestedName.types ∧ outerType ∈ nestedName.types) ∧
      (nestedName.typeMap innerType outerType).fullType = ascii "nested::Outer::Outer" ∧
      ¬ nestedName.Denotes (nestedName.place outerType)
        (nestedName.typeMap innerType outerType).fullType innerType) ∧
    ((dataType ∈ dataName.types ∧ besideType ∈ dataName.types) ∧
      (dataName.typeMap dataType besideType).scopeType = ascii "T_QtProtobufData" ∧
      ¬ dataName.Denotes (dataName.place besideType)
        (dataName.typeMap dataType besideType).scopeType dataType) := by
  refine ⟨⟨by decide, by decide +kernel, by decide +kernel⟩,
    ⟨by decide, by decide +kernel, by decide +kernel⟩,
    ⟨by decide, by decide +kernel, by decide +kernel⟩⟩

end QtGrpc.Generator.FileSet
