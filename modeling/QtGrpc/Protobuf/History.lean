import QtGrpc.Library.Replies
import QtGrpc.Protobuf.Binary.Instance
import QtGrpc.Protobuf.Json.Instance

/-!
# Serializers do not remember

One serializer serves all calls of a channel. Whatever calls it has served, of whatever types and
whether they failed or not, it replies to the next one like a new serializer with its settings.
-/

namespace QtGrpc.Protobuf

/-- The replies of one serializer to a sequence of calls are those of a new serializer to each. A
call is given with a bound on the depth of its recursion. -/
theorem replies_independent_of_history (S : Schema) (order : HashOrder)
    (calls : List (Nat × SerializerCall)) :
    (∀ (env : Environment) (settings : Binary.Settings),
      Replies.replies (Binary.SerializerPrivate.call env order S) (.new settings) calls =
        Replies.repliesAlone (Binary.SerializerPrivate.call env order S) (.new settings) calls) ∧
    ∀ (env : JsonEnvironment) (customIn : Json.CustomDeserializers)
      (customOut : Json.CustomSerializers),
      Replies.replies (Json.SerializerPrivate.call env customIn customOut order S) {} calls =
        Replies.repliesAlone (Json.SerializerPrivate.call env customIn customOut order S) {}
          calls := by
  constructor
  · intro env settings
    refine Replies.replies_eq_repliesAlone _ _ (Binary.SerializerPrivate.Clean settings) ?_ ?_ _
      (Binary.SerializerPrivate.clean_new settings) calls
    · intro d i next r hclean hcall
      have h := (@Binary.SerializerPrivate.Clean.call env S order _ _ hclean i).1
      rwa [hcall] at h
    · exact fun d i hclean => (hclean.call i).2
  · intro env customIn customOut
    refine Replies.replies_eq_repliesAlone _ _ Json.SerializerPrivate.Clean ?_ ?_ _
      Json.SerializerPrivate.clean_new calls
    · intro d i next r hclean hcall
      have h :=
        (@Json.SerializerPrivate.Clean.call env customIn customOut order S _ hclean i).1
      rwa [hcall] at h
    · exact fun d i hclean => (hclean.call i).2

end QtGrpc.Protobuf
