-- SUMMARY: Messages of a model-bound history: assistant turns with tool calls, user turns with tool results.
import FlyCockpit.Lib.Text

/-!
# Messages

The history sent to a provider is a list of messages. An assistant turn may issue tool calls, a user
turn may carry their results, beside other content that the passes over a history leave alone.
-/

namespace FlyCockpit.Engine

/-- A JSON value; a number is kept as its text. -/
inductive Json
  | null
  | bool (value : Bool)
  | number (literal : Text)
  | string (value : Text)
  | array (items : List Json)
  | object (entries : List (Text × Json))

structure ToolCall where
  id : Text
  /-- The provider's own id for the call. -/
  provider : Option Text
  name : Text
  arguments : Json

inductive AssistantContent
  | toolCall (call : ToolCall)
  /-- Text or reasoning. -/
  | other (body : Text)

inductive ToolResultContent
  | text (text : Text)
  | image (data : Text)
  deriving DecidableEq

structure ToolResult where
  call : Text
  provider : Option Text
  name : Text
  content : List ToolResultContent
  deriving DecidableEq

inductive UserContent
  | toolResult (result : ToolResult)
  /-- Text, an image or a document. -/
  | other (body : Text)
  deriving DecidableEq

inductive Message
  | user (content : List UserContent)
  | assistant (id : Option Text) (content : List AssistantContent)
  | system (content : Text)

def AssistantContent.call? : AssistantContent → Option ToolCall
  | .toolCall call => some call
  | .other _ => none

def UserContent.result? : UserContent → Option ToolResult
  | .toolResult result => some result
  | .other _ => none

namespace Message

def isAssistant : Message → Bool
  | .assistant .. => true
  | .user _ | .system _ => false

/-- The calls an assistant turn issues. -/
def calls : Message → List ToolCall
  | .assistant _ content => content.filterMap AssistantContent.call?
  | .user _ | .system _ => []

/-- The results a user turn carries. -/
def results : Message → List ToolResult
  | .user content => content.filterMap UserContent.result?
  | .assistant .. | .system _ => []

def callIds (m : Message) : List Text := m.calls.map ToolCall.id

def resultIds (m : Message) : List Text := m.results.map ToolResult.call

end Message

end FlyCockpit.Engine
