import Framecast.Ring.Record
import Framecast.Schema.Error
import Framecast.Thread
import Framecast.TransportError

/-!
# What can go wrong with resources

Every operation of a registry or of a replica fails with one of these causes.
Failures of a schema or of the transport keep their own cause inside. `message`
gives the wording.
-/

namespace Framecast

/-- A failure of a registry or a replica. -/
inductive ResourceError where
  /-- No link leads to the thread, or none may. -/
  | invalidThread (thread : Thread)
  /-- Nobody can load resources of the type. -/
  | unregisteredType (type : String)
  /-- No such resource is alive. -/
  | notFound (id : ResourceId)
  /-- The resource went away before it was loaded everywhere. -/
  | disposed (id : ResourceId)
  /-- A consumer could not load the resource. -/
  | loadFailed (id : ResourceId) (reason : String)
  /-- A resource of one type stands where another is due. -/
  | typeMismatch (id : ResourceId) (expected actual : String)
  /-- Two different schemas claim one type. -/
  | definitionConflict (type : String)
  /-- The type has no property of the name. -/
  | unknownProp (type prop : String)
  /-- A new instance lacks a value that it must be given. -/
  | missingRequired (type prop : String)
  /-- The host may not write the property. -/
  | immutableProp (prop : String)
  /-- Scripts may not write the property. -/
  | notScriptWritable (prop : String)
  /-- A raw buffer can be set once only. -/
  | bufferAlreadySet (id : ResourceId) (prop : String)
  /-- A raw buffer whose length does not fit a word. -/
  | bufferTooLarge (id : ResourceId) (prop : String) (length : Nat)
  /-- The consumer at the far end of the link is gone. -/
  | disconnected (thread : Thread)
  /-- A refused declaration or value. -/
  | schema (cause : SchemaError)
  /-- A failure of the transport. -/
  | transport (cause : TransportError)
  deriving DecidableEq, Repr

/-- The wording of a resource failure. -/
def ResourceError.message : ResourceError → String
  | invalidThread thread => "thread " ++ thread.label ++ " cannot be targeted from here"
  | unregisteredType type => "resource type `" ++ type ++ "` has no registered loader"
  | notFound id => "resource " ++ toString id ++ " does not exist"
  | disposed id => "resource " ++ toString id ++ " was disposed"
  | loadFailed id reason => "resource " ++ toString id ++ " failed to load: " ++ reason
  | typeMismatch id expected actual =>
    "resource " ++ toString id ++ " is a `" ++ actual ++ "`, expected `" ++ expected ++ "`"
  | definitionConflict type =>
    "resource type `" ++ type ++ "` was already defined with a different schema"
  | unknownProp type prop => "`" ++ type ++ "` has no property `" ++ prop ++ "`"
  | missingRequired type prop =>
    "required property `" ++ prop ++ "` of `" ++ type ++ "` was not supplied"
  | immutableProp prop => "property `" ++ prop ++ "` is immutable"
  | notScriptWritable prop => "property `" ++ prop ++ "` is not writable from scripts"
  | bufferAlreadySet id prop =>
    "array buffer `" ++ prop ++ "` of resource " ++ toString id ++ " is already set"
  | bufferTooLarge id prop length =>
    "array buffer `" ++ prop ++ "` of resource " ++ toString id ++ " is " ++ toString length
      ++ " bytes, past the u32 length word"
  | disconnected thread => "consumer on " ++ thread.label ++ " disconnected"
  | schema cause => "schema error: " ++ cause.message
  | transport cause => "transport error: " ++ cause.message

end Framecast
