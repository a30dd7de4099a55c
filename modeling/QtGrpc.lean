import QtGrpc.Library.ByteOrder
import QtGrpc.Library.Transition
import QtGrpc.Library.TwoRuns
import QtGrpc.Library.Replies
import QtGrpc.Library.Hashes
import QtGrpc.Library.Sharing
import QtGrpc.Library.Signed
import QtGrpc.Library.Decimal
import QtGrpc.Library.FlatSet
import QtGrpc.Library.Grouping
import QtGrpc.Bytes
import QtGrpc.Http2.Frame
import QtGrpc.Http2.FrameStream
import QtGrpc.Http2.Headers
import QtGrpc.Http2.CommonOptions
import QtGrpc.Http2.Handler
import QtGrpc.Http2.Run
import QtGrpc.Http2.Effect
import QtGrpc.Http2.Finish
import QtGrpc.Http2.Outgoing
import QtGrpc.Http2.Accounting
import QtGrpc.Http2.Options
import QtGrpc.Http2.Format
import QtGrpc.Http2.OptionChanges
import QtGrpc.Http2.ReceiveLimit
import QtGrpc.Http2.Delivery
import QtGrpc.Http2.Connection
import QtGrpc.Http2.ConnectionLoss
import QtGrpc.Http2.StreamUse
import QtGrpc.Http2.Client
import QtGrpc.Http2.StartCalls
import QtGrpc.Http2.ChannelChange
import QtGrpc.Protobuf.Scalar
import QtGrpc.Protobuf.Message
import QtGrpc.Protobuf.DeserializerBase
import QtGrpc.Protobuf.Binary.Wire
import QtGrpc.Protobuf.Binary.Deserializer
import QtGrpc.Protobuf.DeserializerSteps
import QtGrpc.Protobuf.Calls
import QtGrpc.Protobuf.Binary.Steps
import QtGrpc.Protobuf.Binary.Progress
import QtGrpc.Protobuf.Binary.Acceptance
import QtGrpc.Protobuf.Binary.AcceptedRun
import QtGrpc.Protobuf.Binary.WireTypes
import QtGrpc.Protobuf.Binary.Bounds
import QtGrpc.Protobuf.Binary.FirstError
import QtGrpc.Protobuf.Binary.Encoding
import QtGrpc.Protobuf.Binary.Complete
import QtGrpc.Protobuf.Binary.Varint
import QtGrpc.Protobuf.Binary.Prefixes
import QtGrpc.Protobuf.Binary.Reading
import QtGrpc.Protobuf.Json.Value
import QtGrpc.Protobuf.Json.Scalar
import QtGrpc.Protobuf.Json.Deserializer
import QtGrpc.Protobuf.Json.Steps
import QtGrpc.Protobuf.Json.Agreement
import QtGrpc.Protobuf.Json.Stack
import QtGrpc.Protobuf.Json.Integers
import QtGrpc.Protobuf.Shape
import QtGrpc.Protobuf.Formed
import QtGrpc.Protobuf.Objects.Object
import QtGrpc.Protobuf.SerializerBase
import QtGrpc.WellKnown.Any
import QtGrpc.Protobuf.SerializerSteps
import QtGrpc.Protobuf.Objects.Comparison
import QtGrpc.Protobuf.Objects.Creation
import QtGrpc.Protobuf.Objects.Accessors
import QtGrpc.Protobuf.Objects.Isolation
import QtGrpc.Protobuf.Instance
import QtGrpc.Protobuf.Binary.Serializer
import QtGrpc.Protobuf.Binary.Instance
import QtGrpc.Protobuf.SerializerTermination
import QtGrpc.Protobuf.Json.Serializer
import QtGrpc.Protobuf.Json.Instance
import QtGrpc.Protobuf.History
import QtGrpc.Protobuf.Binary.Fitting
import QtGrpc.Protobuf.Binary.Repeated
import QtGrpc.Protobuf.Binary.FieldOrder
import QtGrpc.Protobuf.Binary.Merging
import QtGrpc.WellKnown.Timestamp
import QtGrpc.WellKnown.Duration
import QtGrpc.Library.Memory
import QtGrpc.Protobuf.Ordering.Table
import QtGrpc.Protobuf.Ordering.Builder
import QtGrpc.Library.CSource
import QtGrpc.Generator.Text
import QtGrpc.Generator.Descriptor
import QtGrpc.Generator.TypeMap
import QtGrpc.Generator.Properties
import QtGrpc.Generator.OrderingData
import QtGrpc.Generator.StaticOrdering
import QtGrpc.Interceptors.Chain
import QtGrpc.Interceptors.Engine
import QtGrpc.Http2.ServerMetadata
import QtGrpc.Http2.Compression
import QtGrpc.Library.NameLookup
import QtGrpc.Generator.CppNames
import QtGrpc.Generator.FileSet
import QtGrpc.Generator.TypeNames
import QtGrpc.Generator.TypeReferences
import QtGrpc.Generator.MethodMap
import QtGrpc.Generator.Members
import QtGrpc.Generator.MemberNames
import QtGrpc.Generator.MemberClashes
import QtGrpc.Generator.Comments
import QtGrpc.Generator.HeaderGuards
import QtGrpc.Generator.Includes
import QtGrpc.Protobuf.Binary.OneofMembers
import QtGrpc.Protobuf.Binary.OneofStates
import QtGrpc.Protobuf.Contents
import QtGrpc.Protobuf.Binary.Written
import QtGrpc.Protobuf.Binary.Rebuilding
import QtGrpc.Protobuf.Binary.RoundTrip
import QtGrpc.Protobuf.Binary.Retention
import QtGrpc.Protobuf.Binary.Decoded
import QtGrpc.Protobuf.Binary.RequiredFields
import QtGrpc.Protobuf.Binary.Exchanging
import QtGrpc.WellKnown.Packing
import QtGrpc.QtTypes.Core
import QtGrpc.Protobuf.Json.Conversions
import QtGrpc.Protobuf.Json.Restoring
import QtGrpc.Protobuf.Json.Restored
import QtGrpc.Protobuf.Json.Writing
import QtGrpc.Protobuf.Json.RoundTrip
