import RoboAgent.Messages
import RoboAgent.SortedJson

/-! What the constructors of messages and snapshots check beyond the types of their fields. A value
the program holds has passed them, and the codec runs them again on what it reads. -/

namespace RoboAgent.MessageChecks
open RoboAgent.FrozenJson RoboAgent.SortedJson RoboAgent.ToolErrors RoboAgent.ToolEffects
open RoboAgent.Messages

structure ParsedUrl where
  scheme : String
  netloc : String
  path : String
  query : String
  fragment : String
  hostname : Option String

/-- What the codec uses of Python's library. None is a ValueError, for float an OverflowError; a
call of uuid4 is known by the position of the message it is made for. -/
structure Library where
  urlparse : String → Option ParsedUrl
  float : Int → Option PyFloat
  uuid4 : Nat → String
  b64encode : List UInt8 → String
  b64decode : String → Option (List UInt8)
  dumps : JsonValue → Option (List UInt8)
  loads : List UInt8 → Option JsonValue

structure Library.Correct (lib : Library) : Prop where
  base64 : ∀ data, lib.b64decode (lib.b64encode data) = some data
  json : ∀ value data, lib.dumps value = some data → lib.loads data = some (sortKeys value)

/-- Whether str.strip leaves anything. -/
def visible (text : String) : Bool := text.toList.any fun c => !isSpace c

def isMimeChar (c : Char) : Bool :=
  c.isLower || c.isDigit || "!#$&^_.+-".toList.contains c

/-- The pattern `^[a-z0-9!#$&^_.+-]+/[a-z0-9!#$&^_.+-]+$`, which admits no upper case. -/
def isMime (value : String) : Bool :=
  match value.toList.splitOn '/' with
  | [kind, subtype] =>
    !kind.isEmpty && !subtype.isEmpty && kind.all isMimeChar && subtype.all isMimeChar
  | _ => false

def mimeChecked (value : Option String) (top : String) : Bool :=
  value.all fun value => isMime value && top.toList.isPrefixOf value.toList

section
variable (lib : Library)

def isAbsoluteUrl (url : String) : Bool :=
  (lib.urlparse url).any fun parsed =>
    ["http", "https"].contains parsed.scheme && parsed.hostname.any fun host => host != ""

def sourceChecked : MediaSource → Bool
  | .bytes data => !data.isEmpty
  | .file path => visible path && path.toList.head? == some '/'
  | .url url => isAbsoluteUrl lib url

def isArtifactUri (uri : String) : Bool :=
  (lib.urlparse uri).any fun parsed =>
    let path := parsed.path.toList
    parsed.scheme == "workspace" && ["blobs", "files"].contains parsed.netloc &&
      parsed.query == "" && parsed.fragment == "" && !uri.toList.contains '%' &&
      !(path.zip path.tail).contains ('/', '/') &&
      ((path.splitOn '/').drop 1).all fun part => !([[], ['.'], ['.', '.']].contains part)

def isDigest (digest : String) : Bool :=
  "sha256:".toList.isPrefixOf digest.toList &&
    let hex := digest.toList.drop 7
    hex.length == 64 && hex.all fun c => c.isDigit || ('a' ≤ c && c ≤ 'f')

def artifactChecked (reference : ArtifactReferenceContent) : Bool :=
  isArtifactUri lib reference.uri && mimeChecked reference.mediaType "" &&
    isDigest reference.digest && reference.preview.all fun text => text.utf8ByteSize ≤ 4096

def contentChecked : MessageContent → Bool
  | .text _ => true
  | .json value => wellFormed value
  | .image source mediaType _ => sourceChecked lib source && mimeChecked mediaType "image/"
  | .audio source mediaType _ => sourceChecked lib source && mimeChecked mediaType "audio/"
  | .file source mediaType _ => sourceChecked lib source && mimeChecked mediaType ""
  | .artifact reference => artifactChecked lib reference

def toolCallChecked (call : ToolCall) : Bool := call.id != "" && call.name != ""

/-- The part of every message. -/
def commonChecked (content : List MessageContent) (timestamp : PyFloat) (messageId : String) :
    Bool :=
  content.all (contentChecked lib) && timestamp.isFinite && messageId != ""

def userChecked (message : UserMessage) : Bool :=
  commonChecked lib message.content message.timestamp message.messageId &&
    message.content.any fun
      | .text text => visible text
      | _ => true

def assistantChecked (message : AssistantMessage) : Bool :=
  commonChecked lib message.content message.timestamp message.messageId &&
    message.toolCalls.all toolCallChecked && decide (message.toolCalls.map ToolCall.id).Nodup

def toolResultChecked (message : ToolResultMessage) : Bool :=
  commonChecked lib message.content message.timestamp message.messageId &&
    message.toolCallId != "" && message.toolName != "" &&
    match message.status with
    | .success => message.error.isNone
    | .error => message.error.isSome

def messageChecked : AgentMessage → Bool
  | .user message => userChecked lib message
  | .assistant message => assistantChecked lib message
  | .toolResult message => toolResultChecked lib message

def receiptChecked (receipt : InputReceipt) : Bool :=
  receipt.inputId != "" && receipt.sessionId != "" && 1 ≤ receipt.sequence

def summaryChecked (summary : ContextSummary) : Bool :=
  scalarEqual summary.sourceStart (.int 0) && summary.sourceDigest != "" &&
    1 ≤ summary.summaryFormatVersion && summary.summarizerId.all fun id => id != ""

def snapshotChecked (snapshot : SessionSnapshot) : Bool :=
  1 ≤ snapshot.schemaVersion && snapshot.sessionId != ""

/-- Every constructor involved in making the snapshot has passed its check. -/
structure Constructed (snapshot : SessionSnapshot) : Prop where
  messages : ∀ message ∈ snapshot.messages, messageChecked lib message = true
  pending : ∀ item ∈ snapshot.pending,
    userChecked lib item.message = true ∧ receiptChecked item.receipt = true
  compaction : ∀ summary, snapshot.compaction = some summary → summaryChecked summary = true
  snapshot : snapshotChecked snapshot = true

end

/-- The messages of a snapshot, those still pending among them. -/
def allContents (snapshot : SessionSnapshot) : List (List MessageContent) :=
  snapshot.messages.map AgentMessage.content ++
    snapshot.pending.map fun item => item.message.content

end RoboAgent.MessageChecks
