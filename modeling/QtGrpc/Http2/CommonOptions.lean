import Mathlib.Data.List.Induction
import QtGrpc.Bytes
import QtGrpc.Library.Hashes

/-!
# The metadata of call and channel options

`QGrpcCommonOptions` keeps the metadata twice: with many values for a key, which is what an RPC
sends, and as the deprecated hash with one value for a key. The setters of `QGrpcCallOptions` and
`QGrpcChannelOptions` return early if they find what they are given.
-/

namespace QtGrpc.Http2

/-- `QGrpcCommonOptions`: `m_metadata` and `m_deprecatedMetadata`. -/
structure QGrpcCommonOptions where
  metadata : MultiHash Bytes Bytes := []
  deprecatedMetadata : Hash Bytes Bytes := ∅

namespace QGrpcCommonOptions

/-- `setMetadata(QHash)`. -/
def setMetadataHash (_ : QGrpcCommonOptions) (md : Hash Bytes Bytes) : QGrpcCommonOptions where
  deprecatedMetadata := md
  metadata := .ofHash md

/-- `setMetadata(QMultiHash)`. -/
def setMetadata (_ : QGrpcCommonOptions) (md : MultiHash Bytes Bytes) : QGrpcCommonOptions where
  metadata := md
  deprecatedMetadata := md.toHash

def addMetadata (d : QGrpcCommonOptions) (key value : Bytes) : QGrpcCommonOptions where
  deprecatedMetadata := d.deprecatedMetadata.insert key value
  metadata := d.metadata.emplace key value

def containsMetadata (d : QGrpcCommonOptions) (key value : Bytes) : Bool :=
  (d.metadata.equalRange key).contains value

/-- What the options that share the implementation do to set a hash. -/
def replaceHash (d : QGrpcCommonOptions) (metadata : Hash Bytes Bytes) : QGrpcCommonOptions :=
  if d.deprecatedMetadata.Equal metadata then d else d.setMetadataHash metadata

/-- What they do to set a multi-hash. -/
def replace (d : QGrpcCommonOptions) (metadata : MultiHash Bytes Bytes) : QGrpcCommonOptions :=
  if d.metadata.Equal metadata then d else d.setMetadata metadata

/-- What they do to add a pair. -/
def add (d : QGrpcCommonOptions) (key value : Bytes) : QGrpcCommonOptions :=
  if d.containsMetadata key value then d else d.addMetadata key value

end QGrpcCommonOptions

/-- A call that changes metadata, the one of an initializer list included. -/
inductive MetadataCall where
  | setHash (metadata : Hash Bytes Bytes)
  | setMultiHash (metadata : MultiHash Bytes Bytes)
  | setList (list : List (Bytes × Bytes))
  | add (key value : Bytes)

namespace QGrpcCallOptions

def setMetadataHash : QGrpcCommonOptions → Hash Bytes Bytes → QGrpcCommonOptions :=
  QGrpcCommonOptions.replaceHash

def setMetadata : QGrpcCommonOptions → MultiHash Bytes Bytes → QGrpcCommonOptions :=
  QGrpcCommonOptions.replace

def setMetadataList (d : QGrpcCommonOptions) (list : List (Bytes × Bytes)) : QGrpcCommonOptions :=
  setMetadata d (.ofList list)

def addMetadata : QGrpcCommonOptions → Bytes → Bytes → QGrpcCommonOptions :=
  QGrpcCommonOptions.add

end QGrpcCallOptions

namespace QGrpcChannelOptions

def setMetadataHash : QGrpcCommonOptions → Hash Bytes Bytes → QGrpcCommonOptions :=
  QGrpcCommonOptions.replaceHash

def setMetadata : QGrpcCommonOptions → MultiHash Bytes Bytes → QGrpcCommonOptions :=
  QGrpcCommonOptions.replace

def setMetadataList (d : QGrpcCommonOptions) (list : List (Bytes × Bytes)) : QGrpcCommonOptions :=
  setMetadata d (.ofList list)

def addMetadata : QGrpcCommonOptions → Bytes → Bytes → QGrpcCommonOptions :=
  QGrpcCommonOptions.add

end QGrpcChannelOptions

namespace QGrpcCommonOptions

/-- The deprecated metadata are the newest values of the metadata. -/
def ViewsAgree (d : QGrpcCommonOptions) : Prop := d.metadata.toHash.Equal d.deprecatedMetadata

/-- Options set through the hash show it in both views. -/
theorem viewsAgree_setMetadataHash (d : QGrpcCommonOptions) (md : Hash Bytes Bytes) :
    (d.setMetadataHash md).ViewsAgree :=
  MultiHash.toHash_ofHash md

/-- So do options set through the multi-hash. -/
theorem viewsAgree_setMetadata (d : QGrpcCommonOptions) (md : MultiHash Bytes Bytes) :
    (d.setMetadata md).ViewsAgree :=
  List.Perm.refl _

/-- An added value is the newest one of its key in both. -/
theorem ViewsAgree.addMetadata {d : QGrpcCommonOptions} (h : d.ViewsAgree) (key value : Bytes) :
    (d.addMetadata key value).ViewsAgree := by
  rw [ViewsAgree, Hash.equal_iff_lookup] at h ⊢
  intro k
  rw [MultiHash.lookup_toHash]
  simp only [QGrpcCommonOptions.addMetadata, MultiHash.equalRange_emplace]
  by_cases hk : key = k
  · subst hk
    rw [AList.lookup_insert]
    simp
  · rw [AList.lookup_insert_ne (Ne.symm hk), ← h k, MultiHash.lookup_toHash]
    simp [hk]

/-- Replacing through the hash keeps the views in agreement. -/
theorem ViewsAgree.replaceHash {d : QGrpcCommonOptions} (h : d.ViewsAgree)
    (metadata : Hash Bytes Bytes) : (d.replaceHash metadata).ViewsAgree := by
  unfold QGrpcCommonOptions.replaceHash
  split
  · exact h
  · exact viewsAgree_setMetadataHash d metadata

/-- So does replacing through the multi-hash. -/
theorem ViewsAgree.replace {d : QGrpcCommonOptions} (h : d.ViewsAgree)
    (metadata : MultiHash Bytes Bytes) : (d.replace metadata).ViewsAgree := by
  unfold QGrpcCommonOptions.replace
  split
  · exact h
  · exact viewsAgree_setMetadata d metadata

/-- So does adding an entry. -/
theorem ViewsAgree.add {d : QGrpcCommonOptions} (h : d.ViewsAgree) (key value : Bytes) :
    (d.add key value).ViewsAgree := by
  unfold QGrpcCommonOptions.add
  split
  · exact h
  · exact h.addMetadata key value

/-- A hash that is set is what is sent, unless the setter returns early where older values are
left. -/
theorem ViewsAgree.equal_replaceHash_iff {d : QGrpcCommonOptions} (h : d.ViewsAgree)
    (md : Hash Bytes Bytes) : (d.replaceHash md).metadata.Equal (.ofHash md) ↔
      (d.deprecatedMetadata.Equal md → d.metadata.OneValuePerKey) := by
  by_cases hequal : d.deprecatedMetadata.Equal md
  · rw [QGrpcCommonOptions.replaceHash, if_pos hequal, MultiHash.equal_ofHash_iff]
    have hviews : d.metadata.toHash.Equal md := h.trans hequal
    simp [hviews, hequal]
  · rw [QGrpcCommonOptions.replaceHash, if_neg hequal]
    have hself : (d.setMetadataHash md).metadata.Equal (.ofHash md) := List.Perm.refl _
    simp [hself, hequal]

end QGrpcCommonOptions

/-- The options of a call or of a channel. -/
inductive OptionsClass where
  | callOptions
  | channelOptions
deriving DecidableEq, Repr

namespace OptionsClass

/-- The calls of a class of options. -/
def call : OptionsClass → QGrpcCommonOptions → MetadataCall → QGrpcCommonOptions
  | callOptions, d, .setHash metadata => QGrpcCallOptions.setMetadataHash d metadata
  | callOptions, d, .setMultiHash metadata => QGrpcCallOptions.setMetadata d metadata
  | callOptions, d, .setList list => QGrpcCallOptions.setMetadataList d list
  | callOptions, d, .add key value => QGrpcCallOptions.addMetadata d key value
  | channelOptions, d, .setHash metadata => QGrpcChannelOptions.setMetadataHash d metadata
  | channelOptions, d, .setMultiHash metadata => QGrpcChannelOptions.setMetadata d metadata
  | channelOptions, d, .setList list => QGrpcChannelOptions.setMetadataList d list
  | channelOptions, d, .add key value => QGrpcChannelOptions.addMetadata d key value

/-- New options after a sequence of calls. -/
def run (c : OptionsClass) (calls : List MetadataCall) : QGrpcCommonOptions := calls.foldl c.call {}

/-- So does every call of either class. -/
theorem viewsAgree_call (c : OptionsClass) {d : QGrpcCommonOptions} (h : d.ViewsAgree)
    (change : MetadataCall) : (c.call d change).ViewsAgree := by
  cases change with
  | setHash metadata => cases c <;> exact h.replaceHash metadata
  | setMultiHash metadata => cases c <;> exact h.replace metadata
  | setList list => cases c <;> exact h.replace (.ofList list)
  | add key value => cases c <;> exact h.add key value

/-- The views agree after every sequence of calls. -/
theorem viewsAgree_run (c : OptionsClass) (calls : List MetadataCall) :
    (c.run calls).ViewsAgree := by
  induction calls using List.reverseRecOn with
  | nil => exact List.Perm.refl _
  | append_singleton calls change ih =>
    rw [run, List.foldl_append]
    exact c.viewsAgree_call ih change

end OptionsClass

/-- Both views agree after any calls, and a hash that is set then is exactly what is sent if and
only if it is not the deprecated view of metadata with older values. -/
theorem metadataViews_iff (c : OptionsClass) (calls : List MetadataCall) (h : Hash Bytes Bytes) :
    (c.run calls).ViewsAgree ∧
      ((c.call (c.run calls) (.setHash h)).metadata.Equal (.ofHash h) ↔
        ((c.run calls).deprecatedMetadata.Equal h → (c.run calls).metadata.OneValuePerKey)) := by
  have hviews := c.viewsAgree_run calls
  refine ⟨hviews, ?_⟩
  cases c <;> exact hviews.equal_replaceHash_iff h

/-- Two values for the key `k`, of which the older one is still sent. -/
theorem not_replaced_olderValue :
    ∃ calls h, (OptionsClass.callOptions.call (OptionsClass.callOptions.run calls)
        (.setHash h)).metadata = [([0x6B], [0x32]), ([0x6B], [0x31])] ∧
      ¬(OptionsClass.callOptions.call (OptionsClass.callOptions.run calls)
        (.setHash h)).metadata.Equal (.ofHash h) := by
  refine ⟨[.add [0x6B] [0x31], .add [0x6B] [0x32]], AList.singleton [0x6B] [0x32], ?_, ?_⟩
  · decide
  · decide

end QtGrpc.Http2
