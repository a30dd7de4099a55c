import QtGrpc.Protobuf.SerializerBase

/-!
# Messages of any type

An `Any` is exchanged as a message of its own type, `google.protobuf.Any`, which handlers for single
values and for lists make of it. The list's handler writes every value; the one for single values
leaves out those without a type URL. The classes behind both have the same two properties.
-/

namespace QtGrpc.WellKnown

open QtGrpc.Protobuf

/-! ## The message type -/

def anyTypeUrlField : FieldInfo :=
  { fieldNumber := 1, jsonName := "typeUrl", type := .scalar .string }

def anyValueField : FieldInfo := { fieldNumber := 2, jsonName := "value", type := .scalar .bytes }

/-- `google.protobuf.Any`. -/
def anyDescriptor : MessageDescriptor where
  messageFullName := "google.protobuf.Any"
  fields := [anyTypeUrlField, anyValueField]
  numbers_nodup := by decide
  numbers_bound := by decide
  presence_fits := by decide

/-- A program whose only message type is this one. -/
def anySchema : Schema where
  message _ := anyDescriptor
  enumKeys _ := []
  findHandler _ := none
  typeName _ := ""

/-- `AnyPrivate`. -/
structure Any where
  typeUrl : String := ""
  value : Bytes := []
deriving DecidableEq

namespace Any

/-- `google::protobuf::Any`, with the value and the type URL of an `Any`. -/
def realAny (any : Any) : Message :=
  let m := anySchema.defaultMessage (.named 0)
  let m := (anySchema.setMessageProperty m 1 anyValueField (.scalar ⟨.bytes, any.value⟩)).1
  (anySchema.setMessageProperty m 0 anyTypeUrlField (.scalar ⟨.string, any.typeUrl⟩)).1

/-- An `Any` with the type URL and the value of a message. -/
def ofRealAny (object : Message) : Any where
  typeUrl :=
    match object.messageProperty 0 anyTypeUrlField with
    | .scalar ⟨.string, typeUrl⟩ => typeUrl
    | _ => ""
  value :=
    match object.messageProperty 1 anyValueField with
    | .scalar ⟨.bytes, value⟩ => value
    | _ => []

/-- What a field of the type holds. A new value is the one a member is initialized with. -/
def content (any : Any) : List Message := if any = {} then [] else [any.realAny]

/-- The value a field of the type holds. -/
def ofContent : List Message → Any
  | [] => {}
  | object :: _ => ofRealAny object

/-! ## The handlers -/

/-- `serializerProxy`. -/
def serializerProxy (content : List Message) : List Message :=
  let any := ofContent content
  if any.typeUrl.isEmpty then [] else [any.realAny]

/-- `deserializerProxy`. -/
def deserializerProxy (ok : Bool) (object : Message) (content : List Message) : List Message :=
  if ok then (ofRealAny object).content else content

/-- `listSerializerProxy`. -/
def listSerializerProxy (content : List Message) : List Message :=
  content.map fun object => (ofRealAny object).realAny

/-- `listDeserializerProxy`. -/
def listDeserializerProxy (ok : Bool) (object : Message) (content : List Message) : List Message :=
  if ok then content ++ [(ofRealAny object).realAny] else content

/-- The handler that `registerTypes` registers for single values. -/
def handler (a : Nat) : Handler where
  proxy := .named a
  objects := serializerProxy
  assign := deserializerProxy
  isEqual content content' := ofContent content = ofContent content'

/-- The handler that `registerTypes` registers for lists. -/
def listHandler (a : Nat) : Handler where
  proxy := .named a
  objects := listSerializerProxy
  assign := listDeserializerProxy
  isEqual content content' := content.map ofRealAny = content'.map ofRealAny

/-- The generated message and the value convert into each other. -/
@[simp] theorem ofRealAny_realAny (any : Any) : ofRealAny any.realAny = any := rfl

/-- A field holds the value it was given. -/
@[simp] theorem ofContent_content (any : Any) : ofContent any.content = any := by
  by_cases h : any = {}
  · rw [content, if_pos h, h]
    rfl
  · rw [content, if_neg h]
    rfl

/-- A new field holds a new value. -/
theorem content_eq_nil {any : Any} : any.content = [] ↔ any = {} := by
  by_cases h : any = {}
  · simp [content, h]
  · simp [content, h]

end Any

end QtGrpc.WellKnown
