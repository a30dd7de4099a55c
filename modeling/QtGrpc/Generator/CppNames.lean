import QtGrpc.Generator.TypeMap
import Mathlib.Data.List.Chain
import Mathlib.Data.List.Induction

/-!
# Names of generated types

A generated header declares a class or an enumeration for each type of a `.proto` file. Nested types
stand in a namespace beside the class of the message around them, and that class has an alias for
each, so that a type has several qualified names. An alias with the name of its class is none of
them, since that name denotes the constructor. A text names a type by its components.
-/

namespace QtGrpc.Generator

/-! ## Qualified names -/

/-- The components of a text, behind those in front of it. -/
def splitNameFrom : (current : Bytes) → Bytes → List Bytes
  | current, [] => [current]
  | current, [b] => [current ++ [b]]
  | current, a :: b :: text =>
    if a = 58 ∧ b = 58 then current :: splitNameFrom [] text
    else splitNameFrom (current ++ [a]) (b :: text)

/-- The components of a qualified name: what stands between the double colons. A name that begins
with them has an empty first component. -/
def splitName (text : Bytes) : List Bytes := if text = [] then [] else splitNameFrom [] text

/-- A byte that is no colon belongs to the component. -/
theorem splitNameFrom_cons {a : UInt8} (h : a ≠ 58) (current text : Bytes) :
    splitNameFrom current (a :: text) = splitNameFrom (current ++ [a]) text := by
  cases text with
  | nil => rfl
  | cons b text => rw [splitNameFrom, if_neg fun hab => h hab.1]

/-- So do several bytes. -/
theorem splitNameFrom_append {component : Bytes} (h : 58 ∉ component) (current rest : Bytes) :
    splitNameFrom current (component ++ rest) = splitNameFrom (current ++ component) rest := by
  induction component generalizing current with
  | nil => rw [List.nil_append, List.append_nil]
  | cons a component ih =>
    obtain ⟨ha, hcomponent⟩ := not_or.mp (List.mem_cons.not.mp h)
    rw [List.cons_append, splitNameFrom_cons (Ne.symm ha), ih hcomponent, List.append_assoc,
      List.singleton_append]

/-- A component ends in front of a double colon. -/
theorem splitNameFrom_separator {component : Bytes} (h : 58 ∉ component) (rest : Bytes) :
    splitNameFrom [] (component ++ (ascii "::" ++ rest)) = component :: splitNameFrom [] rest := by
  rw [splitNameFrom_append h]
  rfl

/-- Components that are joined with colons are split again. -/
theorem splitNameFrom_join {components : List Bytes} (hne : components ≠ [])
    (h : ∀ component ∈ components, 58 ∉ component) :
    splitNameFrom [] (join (ascii "::") components) = components := by
  induction components with
  | nil => exact absurd rfl hne
  | cons component components ih =>
    have hcomponent := h component List.mem_cons_self
    cases components with
    | nil =>
      have hsplit := splitNameFrom_append hcomponent [] []
      rw [List.append_nil, List.nil_append] at hsplit
      exact hsplit
    | cons next components =>
      rw [join_cons_cons, List.append_assoc, splitNameFrom_separator hcomponent,
        ih (by simp) fun c hc => h c (List.mem_cons_of_mem _ hc)]

/-- A name is split into what it was joined of. -/
theorem splitName_join {components : List Bytes}
    (h : ∀ component ∈ components, component ≠ [] ∧ 58 ∉ component) :
    splitName (join (ascii "::") components) = components := by
  cases components with
  | nil => rfl
  | cons component components =>
    have hne : join (ascii "::") (component :: components) ≠ [] := by
      have hcomponent := (h component List.mem_cons_self).1
      cases components with
      | nil => exact hcomponent
      | cons next components =>
        rw [join_cons_cons]
        simp [hcomponent]
    rw [splitName, if_neg hne, splitNameFrom_join (by simp) fun c hc => (h c hc).2]

/-! ## Identifiers -/

/-- An identifier has letters, digits and underscores only. -/
theorem Identifier.not_mem_text (name : Identifier) {c : UInt8}
    (h : (isAsciiAlnum c || c == 95) = false) : c ∉ name.text := by
  intro hc
  have hvalid := List.all_eq_true.mp name.valid c hc
  rw [h] at hvalid
  exact Bool.false_ne_true hvalid

/-- A capitalized identifier contains no byte that an identifier does not contain. -/
theorem not_mem_capitalize {text : Bytes} {c : UInt8} (hc : isAsciiAlpha c = false)
    (h : c ∉ text) : c ∉ capitalizeAsciiName text := by
  cases text with
  | nil => exact h
  | cons b text =>
    obtain ⟨hb, htext⟩ := not_or.mp (List.mem_cons.not.mp h)
    rw [capitalizeAsciiName, List.mem_cons, not_or]
    refine ⟨?_, htext⟩
    split
    · rename_i halpha
      rintro rfl
      have hupper : ∀ b : UInt8, isAsciiAlpha b = true → isAsciiAlpha (b &&& ~~~0x20) = true :=
        forall_byte (P := fun b => isAsciiAlpha b = true → isAsciiAlpha (b &&& ~~~0x20) = true)
          (by decide +kernel)
      rw [hupper b halpha] at hc
      cases hc
    · exact hb

/-- The name of the class of a message. -/
def Identifier.className (name : Identifier) : Bytes := capitalizeAsciiName name.text

/-- A class name is a component of a qualified name. -/
theorem Identifier.className_component (name : Identifier) :
    name.className ≠ [] ∧ 58 ∉ name.className ∧ 46 ∉ name.className := by
  refine ⟨?_, not_mem_capitalize (by decide) (name.not_mem_text (by decide)),
    not_mem_capitalize (by decide) (name.not_mem_text (by decide))⟩
  intro hempty
  have hlength := congrArg List.length hempty
  rw [Identifier.className, length_capitalize] at hlength
  exact name.nonempty (List.length_eq_zero_iff.mp hlength)

/-- So is an identifier. -/
theorem Identifier.text_component (name : Identifier) : name.text ≠ [] ∧ 58 ∉ name.text ∧
    46 ∉ name.text :=
  ⟨name.nonempty, name.not_mem_text (by decide), name.not_mem_text (by decide)⟩

/-! ## Texts of namespaces -/

/-- Two lists of values are joined one behind the other. -/
theorem join_append {separator : Bytes} {values rest : List Bytes} (hvalues : values ≠ [])
    (hrest : rest ≠ []) :
    join separator (values ++ rest) = join separator values ++ separator ++ join separator rest := by
  induction values with
  | nil => exact absurd rfl hvalues
  | cons value values ih =>
    cases values with
    | nil =>
      obtain ⟨next, rest, rfl⟩ := List.exists_cons_of_ne_nil hrest
      exact join_cons_cons separator value next rest
    | cons next values =>
      rw [List.cons_append, List.cons_append, join_cons_cons, ← List.cons_append,
        ih (by simp), join_cons_cons]
      simp only [List.append_assoc]

/-- Each further value stands behind a separator. -/
theorem join_append_flatMap {separator : Bytes} {values : List Bytes} (hvalues : values ≠ [])
    (rest : List Bytes) :
    join separator (values ++ rest) = join separator values ++ rest.flatMap (separator ++ ·) := by
  induction rest generalizing values with
  | nil => rw [List.append_nil, List.flatMap_nil, List.append_nil]
  | cons value rest ih =>
    rw [List.append_cons, ih (by simp), join_append hvalues (by simp), List.flatMap_cons]
    simp [join]

/-- What is before the last dot, if the name behind it has none. -/
theorem beforeLastDot_append {name : Bytes} (h : 46 ∉ name) (front : Bytes) :
    beforeLastDot (front ++ (ascii "." ++ name)) = some front := by
  have hreverse : (front ++ (ascii "." ++ name)).reverse = name.reverse ++ 46 :: front.reverse := by
    simp [ascii]
  have hdrop : ∀ rest : Bytes, (name.reverse ++ 46 :: rest).dropWhile (· != 46) = 46 :: rest := by
    intro rest
    rw [List.dropWhile_append_of_pos]
    · rfl
    · intro b hb
      rw [List.mem_reverse] at hb
      rw [bne_iff_ne]
      rintro rfl
      exact h hb
  rw [beforeLastDot, if_pos (by simp [ascii]), hreverse, hdrop, List.tail_cons, List.reverse_reverse]

/-- Replacing a character leaves a text without it. -/
theorem flatMap_of_not_mem {c : UInt8} (new : Bytes) {text : Bytes} (h : c ∉ text) :
    (text.flatMap fun b => if b = c then new else [b]) = text := by
  induction text with
  | nil => rfl
  | cons b text ih =>
    obtain ⟨hb, htext⟩ := not_or.mp (List.mem_cons.not.mp h)
    rw [List.flatMap_cons, if_neg (Ne.symm hb), ih htext, List.singleton_append]

/-- Replacing dots goes through the text once. -/
theorem replace_dot (text : Bytes) :
    replace text (ascii ".") (ascii "::") =
      text.flatMap fun b => if b = 46 then ascii "::" else [b] := by
  rw [replace, if_neg (by decide)]
  exact replaceFrom_singleton 46 (ascii "::") text

/-- A replacement of the dots between names. -/
theorem replace_join {names : List Bytes} (h : ∀ name ∈ names, 46 ∉ name) :
    replace (join (ascii ".") names) (ascii ".") (ascii "::") = join (ascii "::") names := by
  rw [replace_dot]
  induction names with
  | nil => rfl
  | cons name names ih =>
    have hname := flatMap_of_not_mem (ascii "::") (h name List.mem_cons_self)
    cases names with
    | nil => exact hname
    | cons next names =>
      rw [join_cons_cons, join_cons_cons, List.flatMap_append, List.flatMap_append, hname,
        ih fun n hn => h n (List.mem_cons_of_mem _ hn)]
      rfl

/-- Names that are joined with dots become ones joined with colons. -/
theorem replace_joinNames (names : List Identifier) :
    replace (joinNames (ascii ".") names) (ascii ".") (ascii "::") = joinNames (ascii "::") names := by
  apply replace_join
  intro text htext
  obtain ⟨name, -, rfl⟩ := List.mem_map.mp htext
  exact name.text_component.2.2

/-- Joined names are split again. -/
theorem splitName_joinNames (names : List Identifier) :
    splitName (joinNames (ascii "::") names) = names.map (·.text) := by
  apply splitName_join
  intro text htext
  obtain ⟨name, -, rfl⟩ := List.mem_map.mp htext
  exact ⟨name.text_component.1, name.text_component.2.1⟩

/-! ## Where types are declared -/

variable (options : Options)

/-- A package whose types are kept apart from the classes of Qt. -/
def FileDescriptor.isQtPackage (file : FileDescriptor) : Bool :=
  file.package.map (·.text) = [ascii "QtCore"] || file.package.map (·.text) = [ascii "QtGui"]

/-- The namespaces that `OpenFileNamespaces` opens. -/
def fileNamespace (file : FileDescriptor) : List Bytes :=
  splitName (getFullNamespaceOf options (file.packageName ++ ascii ".noop") (ascii "::") true)

/-- The namespace beside the class of a message. -/
def Identifier.nestedNamespace (name : Identifier) : Bytes :=
  name.className ++ qtProtobufNestedNamespace

/-- An enumeration. -/
def TypeDescriptor.isEnum (t : TypeDescriptor) : Bool :=
  match t.kind with
  | .enumeration _ => true
  | _ => false

/-- The namespaces in which the class of a type is declared, within those of its file. -/
def TypeDescriptor.localNamespace (t : TypeDescriptor) : List Bytes :=
  if t.containing = [] ∧ t.isEnum then [t.name.className ++ enumClassSuffix]
  else t.containing.map (·.nestedNamespace)

/-- The qualified names of a type: that of its declaration, and that of its alias in the class of
the message around it. A map has an alias only. Behind a class its own name denotes a constructor. -/
inductive Names : TypeDescriptor → List Bytes → Prop where
  | declared (t : TypeDescriptor) (hmap : t.isMap = false) :
      Names t (fileNamespace options t.file ++ t.localNamespace ++ [t.name.className])
  | inClass {outer inner : TypeDescriptor} {path : List Bytes} (hfile : inner.file = outer.file)
      (hmessage : outer.kind = .message)
      (hcontaining : inner.containing = outer.containing ++ [outer.name])
      (hother : outer.name.className ≠ inner.name.className) (h : Names outer path) :
      Names inner (path ++ [inner.name.className])

/-- Each of these classes has another name than the one around it. -/
def ClassesDiffer (names : List Identifier) : Prop :=
  (names.map (·.className)).IsChain (· ≠ ·)

instance (names : List Identifier) : Decidable (ClassesDiffer names) :=
  inferInstanceAs (Decidable (List.IsChain _ _))

/-- A class in another one differs from it. -/
theorem classesDiffer_append {front : List Identifier} {outer inner : Identifier} :
    ClassesDiffer (front ++ [outer] ++ [inner]) ↔
      ClassesDiffer (front ++ [outer]) ∧ outer.className ≠ inner.className := by
  rw [ClassesDiffer, ClassesDiffer, List.append_assoc]
  simp

variable {options}

/-- Names are joined to the same text as components exactly if they are the components. -/
theorem joinNames_eq_iff {names : List Identifier} {components : List Bytes}
    (h : ∀ component ∈ components, component ≠ [] ∧ 58 ∉ component) :
    joinNames (ascii "::") names = join (ascii "::") components ↔
      names.map (·.text) = components := by
  constructor
  · intro htexts
    rw [← splitName_joinNames names, htexts, splitName_join h]
  · intro hnames
    rw [joinNames, hnames]

/-- The same for one component. -/
theorem joinNames_eq_single_iff {names : List Identifier} {component : Bytes}
    (h : component ≠ [] ∧ 58 ∉ component) :
    joinNames (ascii "::") names = component ↔ names.map (·.text) = [component] :=
  joinNames_eq_iff fun c (hc : c ∈ [component]) => by
    rw [List.mem_singleton.mp hc]
    exact h

/-- The components of a package's namespace. -/
def FileDescriptor.packageNamespace (file : FileDescriptor) : List Bytes :=
  (if file.isQtPackage then [ascii "QtProtobufPrivate"] else []) ++ file.package.map (·.text)

/-- The namespace of a package as `getFullNamespace` writes it. -/
theorem FileDescriptor.join_packageNamespace (file : FileDescriptor) :
    (let namespaces := replace file.packageName (ascii ".") (ascii "::")
      if namespaces = ascii "QtCore" ∨ namespaces = ascii "QtGui" then
        ascii "QtProtobufPrivate" ++ ascii "::" ++ namespaces
      else namespaces) = join (ascii "::") file.packageNamespace := by
  have hqt : (joinNames (ascii "::") file.package = ascii "QtCore" ∨
      joinNames (ascii "::") file.package = ascii "QtGui") ↔ file.isQtPackage = true := by
    rw [joinNames_eq_single_iff (by decide), joinNames_eq_single_iff (by decide),
      FileDescriptor.isQtPackage, Bool.or_eq_true, decide_eq_true_eq, decide_eq_true_eq]
  simp only [FileDescriptor.packageName, replace_joinNames, hqt]
  rw [FileDescriptor.packageNamespace]
  by_cases h : file.isQtPackage = true
  · rw [if_pos h, if_pos h]
    have hne : file.package.map (·.text) ≠ [] := by
      intro hnil
      rw [FileDescriptor.isQtPackage, hnil] at h
      exact absurd h (by decide)
    rw [join_append (by simp) hne]
    rfl
  · rw [if_neg h, if_neg h]
    rfl

/-- The namespaces of a package are components. -/
theorem FileDescriptor.packageNamespace_component (file : FileDescriptor) :
    ∀ component ∈ file.packageNamespace, component ≠ [] ∧ 58 ∉ component := by
  intro component hcomponent
  rw [FileDescriptor.packageNamespace, List.mem_append] at hcomponent
  rcases hcomponent with hprivate | hpackage
  · split at hprivate
    · rw [List.mem_singleton.mp hprivate]
      decide
    · cases hprivate
  · obtain ⟨name, -, rfl⟩ := List.mem_map.mp hpackage
    exact ⟨name.text_component.1, name.text_component.2.1⟩

/-- Only no value joins to nothing. -/
theorem join_eq_nil_iff {separator : Bytes} (hseparator : separator ≠ []) {values : List Bytes}
    (h : ∀ value ∈ values, value ≠ []) : join separator values = [] ↔ values = [] := by
  cases values with
  | nil => simp [join]
  | cons value values =>
    cases values with
    | nil => simp [join, h value List.mem_cons_self]
    | cons next values => simp [join_cons_cons, hseparator]

/-- The namespaces of a file are those of the option and those of the package. -/
theorem fileNamespace_eq {extra : List Identifier}
    (hextra : options.extraNamespace = joinNames (ascii "::") extra) (file : FileDescriptor) :
    fileNamespace options file = extra.map (·.text) ++ file.packageNamespace := by
  have hfront : beforeLastDot (file.packageName ++ ascii ".noop") = some file.packageName :=
    beforeLastDot_append (show 46 ∉ ascii "noop" by decide) file.packageName
  have hpackage := file.join_packageNamespace
  have hextraComponent : ∀ component ∈ extra.map (·.text), component ≠ [] ∧ 58 ∉ component := by
    intro component hcomponent
    obtain ⟨name, -, rfl⟩ := List.mem_map.mp hcomponent
    exact ⟨name.text_component.1, name.text_component.2.1⟩
  have hempty := join_eq_nil_iff (show ascii "::" ≠ [] by decide)
    fun c hc => (file.packageNamespace_component c hc).1
  have hnone := join_eq_nil_iff (show ascii "::" ≠ [] by decide)
    fun c hc => (hextraComponent c hc).1
  have hname : getFullNamespaceOf options (file.packageName ++ ascii ".noop") (ascii "::") true =
      join (ascii "::") (extra.map (·.text) ++ file.packageNamespace) := by
    simp only [getFullNamespaceOf, if_true, hfront]
    simp only at hpackage
    rw [hpackage, hextra, joinNames]
    simp only [ne_eq, hempty, hnone]
    by_cases hextraNil : extra.map (·.text) = []
    · rw [if_neg fun h => h.1 hextraNil, hextraNil]
      rfl
    · by_cases hpackageNil : file.packageNamespace = []
      · rw [if_neg fun h => h.2 hpackageNil, hpackageNil, List.append_nil]
        exact List.append_nil _
      · rw [if_pos ⟨hextraNil, hpackageNil⟩, join_append hextraNil hpackageNil]
  rw [fileNamespace, hname, splitName_join]
  intro component hcomponent
  rcases List.mem_append.mp hcomponent with hleft | hright
  · exact hextraComponent component hleft
  · exact file.packageNamespace_component component hright

/-- A nested type lies in the namespaces of the types around it. -/
theorem TypeDescriptor.localNamespace_nested (t : TypeDescriptor)
    (h : t.containing ≠ [] ∨ t.isEnum = false) :
    t.localNamespace = t.containing.map (·.nestedNamespace) := by
  rw [TypeDescriptor.localNamespace, if_neg]
  rintro ⟨hnil, henum⟩
  rcases h with hne | hmessage
  · exact hne hnil
  · rw [henum] at hmessage
    cases hmessage

/-- A message is no enumeration. -/
theorem TypeDescriptor.isEnum_of_message {t : TypeDescriptor} (h : t.kind = .message) :
    t.isEnum = false := by
  rw [TypeDescriptor.isEnum, h]

/-- Nor is it the entry type of a map. -/
theorem TypeDescriptor.isMap_of_message {t : TypeDescriptor} (h : t.kind = .message) :
    t.isMap = false := by
  rw [TypeDescriptor.isMap, h]
  rfl

/-- A name leads through namespaces up to some message, and from there through classes. The name of
a map begins no later than at the class around it. -/
theorem Names.exists_take {t : TypeDescriptor} {path : List Bytes} (h : Names options t path)
    (ht : t.containing ≠ [] ∨ t.isEnum = false) :
    ∃ i ≤ t.containing.length, path = fileNamespace options t.file ++
      (t.containing.take i).map (·.nestedNamespace) ++ (t.containing.drop i).map (·.className) ++
      [t.name.className] ∧ ClassesDiffer (t.containing.drop i ++ [t.name]) ∧
      (t.isMap = true → i < t.containing.length) := by
  induction h with
  | declared t hmap =>
    refine ⟨t.containing.length, Nat.le_refl _, ?_, ?_, ?_⟩
    · rw [t.localNamespace_nested ht, List.take_length, List.drop_length, List.map_nil,
        List.append_nil]
    · rw [List.drop_length]
      exact List.isChain_singleton _
    · intro hmap'
      rw [hmap] at hmap'
      cases hmap'
  | @inClass outer inner path hfile hmessage hcontaining hother h ih =>
    obtain ⟨i, hi, hpath, hdiffer, -⟩ := ih (Or.inr (TypeDescriptor.isEnum_of_message hmessage))
    have hlength : inner.containing.length = outer.containing.length + 1 := by
      rw [hcontaining, List.length_append, List.length_singleton]
    refine ⟨i, by omega, ?_, ?_, fun _ => by omega⟩
    · rw [hpath, hcontaining, hfile, List.take_append_of_le_length hi,
        List.drop_append_of_le_length hi]
      simp
    · rw [hcontaining, List.drop_append_of_le_length hi]
      exact classesDiffer_append.mpr ⟨hdiffer, hother⟩

/-- Each of these is a name if the classes that it leads through differ. -/
theorem Names.of_take (options : Options) {t : TypeDescriptor}
    (ht : t.containing ≠ [] ∨ t.isEnum = false) {i : Nat} (hi : i ≤ t.containing.length)
    (hdiffer : ClassesDiffer (t.containing.drop i ++ [t.name]))
    (hmap : t.isMap = true → i < t.containing.length) :
    Names options t (fileNamespace options t.file ++
      (t.containing.take i).map (·.nestedNamespace) ++ (t.containing.drop i).map (·.className) ++
      [t.name.className]) := by
  obtain ⟨file, containing, name, kind⟩ := t
  have hdeclared (hall : i = containing.length) :
      Names options ⟨file, containing, name, kind⟩ (fileNamespace options file ++
        containing.map (·.nestedNamespace) ++ [name.className]) := by
    have hnames := @Names.declared options ⟨file, containing, name, kind⟩ (by
      rw [← Bool.not_eq_true]
      intro h
      exact absurd (hmap h) (by rw [hall]; exact Nat.lt_irrefl _))
    rwa [TypeDescriptor.localNamespace_nested _ ht] at hnames
  induction containing using List.reverseRecOn generalizing name kind i with
  | nil => simpa using hdeclared (Nat.le_zero.mp hi)
  | append_singleton containing last ih =>
    by_cases hall : i = (containing ++ [last]).length
    · rw [hall, List.take_length, List.drop_length, List.map_nil, List.append_nil]
      exact hdeclared hall
    · have hlt : i ≤ containing.length := by
        simp only [List.length_append, List.length_singleton] at hi hall
        omega
      have hlast := @Names.declared options ⟨file, containing, last, .message⟩ rfl
      rw [TypeDescriptor.localNamespace_nested _ (Or.inr rfl)] at hlast
      have hmessage : (TypeDescriptor.mk file containing last .message).isMap = true →
          i < containing.length := by
        intro h
        cases h
      simp only [List.drop_append_of_le_length hlt] at hdiffer
      obtain ⟨hinner, hother⟩ := classesDiffer_append.mp hdiffer
      have houter := ih last .message (Or.inr rfl) hlt hinner hmessage fun _ => hlast
      have halias : Names options ⟨file, containing ++ [last], name, kind⟩ _ :=
        @Names.inClass options ⟨file, containing, last, .message⟩ _ _ rfl rfl rfl hother houter
      simp only [List.take_append_of_le_length hlt, List.drop_append_of_le_length hlt,
        List.map_append, List.map_cons, List.map_nil, List.append_assoc] at halias ⊢
      exact halias

/-- All qualified names of a type have as many components. -/
theorem Names.length_eq {t : TypeDescriptor} {path : List Bytes} (h : Names options t path) :
    path.length = (fileNamespace options t.file).length + t.localNamespace.length + 1 := by
  by_cases hglobal : t.containing = [] ∧ t.isEnum = true
  · cases h with
    | declared t hmap => rw [List.length_append, List.length_append, List.length_singleton]
    | inClass hfile hmessage hcontaining hother h =>
      rw [hglobal.1] at hcontaining
      simp at hcontaining
  · have ht : t.containing ≠ [] ∨ t.isEnum = false := by
      rw [not_and_or, Bool.not_eq_true] at hglobal
      exact hglobal
    obtain ⟨i, hi, rfl, -⟩ := h.exists_take ht
    rw [t.localNamespace_nested ht]
    simp only [List.length_append, List.length_map, List.length_take, List.length_drop,
      List.length_singleton]
    omega

variable (options) in
/-- The qualified names of a type, by the number of messages around it whose namespaces they lead
through. -/
def TypeDescriptor.qualifiedNames (t : TypeDescriptor) : List (List Bytes) :=
  if t.containing = [] ∧ t.isEnum then
    [fileNamespace options t.file ++ t.localNamespace ++ [t.name.className]]
  else
    ((List.range (t.containing.length + 1)).filter fun i =>
      decide (ClassesDiffer (t.containing.drop i ++ [t.name])) &&
        (!t.isMap || decide (i < t.containing.length))).map fun i =>
      fileNamespace options t.file ++ (t.containing.take i).map (·.nestedNamespace) ++
        (t.containing.drop i).map (·.className) ++ [t.name.className]

/-- These are its names. -/
theorem names_iff_mem {t : TypeDescriptor} {path : List Bytes} :
    Names options t path ↔ path ∈ t.qualifiedNames options := by
  rw [TypeDescriptor.qualifiedNames]
  by_cases hglobal : t.containing = [] ∧ t.isEnum = true
  · rw [if_pos hglobal, List.mem_singleton]
    constructor
    · intro h
      cases h with
      | declared t hmap => rfl
      | inClass hfile hmessage hcontaining hother h =>
        rw [hglobal.1] at hcontaining
        simp at hcontaining
    · rintro rfl
      apply Names.declared
      have henum := hglobal.2
      rw [TypeDescriptor.isEnum] at henum
      cases hkind : t.kind with
      | mapEntry => simp [hkind] at henum
      | _ => simp [TypeDescriptor.isMap, hkind]
  · have ht : t.containing ≠ [] ∨ t.isEnum = false := by
      rwa [not_and_or, Bool.not_eq_true] at hglobal
    simp only [if_neg hglobal, List.mem_map, List.mem_filter, List.mem_range, Bool.and_eq_true,
      decide_eq_true_eq, Bool.or_eq_true, Bool.not_eq_true']
    constructor
    · intro h
      obtain ⟨i, hi, rfl, hdiffer, hmap⟩ := h.exists_take ht
      refine ⟨i, ⟨by omega, hdiffer, ?_⟩, rfl⟩
      cases h : t.isMap with
      | false => exact Or.inl rfl
      | true => exact Or.inr (hmap h)
    · rintro ⟨i, ⟨hi, hdiffer, hmap⟩, rfl⟩
      refine Names.of_take options ht (by omega) hdiffer fun h => hmap.resolve_left ?_
      rw [h]
      exact Bool.noConfusion

instance (t : TypeDescriptor) (path : List Bytes) : Decidable (Names options t path) :=
  decidable_of_iff _ names_iff_mem.symm

end QtGrpc.Generator
