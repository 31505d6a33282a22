import Cjdns.Admin.Admin
import Cjdns.Library.SwapRemove
import Cjdns.Util.Hex

/-!
# Subscriptions to the log

`AdminLog.c` sends each line of the log to the clients that have subscribed to it. The
subscriptions are an array that loses an element by moving the last one into its place, also
while a line goes through them. One message serves all of them.

A file filter is a copy of a name until a line matches it. From then on it is the address of the
last component of the path of that line, and other lines match by the address of their path.
-/

namespace Cjdns

namespace AdminLog

abbrev MAX_SUBSCRIPTIONS : ℕ := 64

abbrev FILE_NAME_COUNT : ℕ := 32

/-- `enum Log_Level` without `Log_Level_INVALID` -/
inductive Level where
  | KEYS
  | DEBUG
  | INFO
  | WARN
  | ERROR
  | CRITICAL
deriving DecidableEq

namespace Level

/-- The number of a level -/
def code : Level → ℕ
  | KEYS => 0
  | DEBUG => 1
  | INFO => 2
  | WARN => 3
  | ERROR => 4
  | CRITICAL => 5

/-- `Log_nameForLevel` -/
def name : Level → BString
  | KEYS => [0x4B, 0x45, 0x59, 0x53]
  | DEBUG => [0x44, 0x45, 0x42, 0x55, 0x47]
  | INFO => [0x49, 0x4E, 0x46, 0x4F]
  | WARN => [0x57, 0x41, 0x52, 0x4E]
  | ERROR => [0x45, 0x52, 0x52, 0x4F, 0x52]
  | CRITICAL => [0x43, 0x52, 0x49, 0x54, 0x49, 0x43, 0x41, 0x4C]

end Level

/-- The characters up to the one that ends a string -/
def cString (bytes : BString) : BString :=
  bytes.takeWhile fun byte => byte ≠ 0

/-- `tolower`, by which `strcasecmp` compares -/
def toLower (character : BitVec 8) : BitVec 8 :=
  if 0x41 ≤ character ∧ character ≤ 0x5A then character + 0x20 else character

/-- `Log_levelForName` -/
def levelForName (name : BString) : Option Level :=
  [.KEYS, .DEBUG, .INFO, .WARN, .ERROR, .CRITICAL].find? fun level : Level =>
    (cString name).map toLower = level.name.map toLower

/-- The texts of the program by address, such as the paths of its files. Further on in a text is the
rest of it. -/
structure Literals where
  text : ℕ → BString
  text_add : ∀ address offset, offset ≤ (text address).length →
    text (address + offset) = (text address).drop offset

/-- What comes after the last slash of a path -/
def lastComponent (path : BString) : BString :=
  (path.reverse.takeWhile fun character => character ≠ 0x2F).reverse

/-- `getShortName` -/
def Literals.getShortName (literals : Literals) (fullFilePath : ℕ) : ℕ :=
  fullFilePath + ((literals.text fullFilePath).length -
    (lastComponent (literals.text fullFilePath)).length)

/-- The name of the file to match against, with `internalName` -/
inductive FileName where
  | copied (name : BString)
  | internal (address : ℕ)
deriving DecidableEq

/-- What a subscription asks for; zero stands for any line. -/
structure Filter where
  level : Level
  line : BitVec 64
  file : Option BString
deriving DecidableEq

/-- `struct Subscription`, with what was asked for -/
structure Subscription where
  level : Level
  lineNum : BitVec 31
  file : Option FileName
  txid : BString
  streamId : BString
  asked : Filter
deriving DecidableEq

/-- What is logged: the level, the address of the path, the number of the line, the text and the
time; and whether the interface of the admin takes a message to an address -/
structure Line where
  logLevel : Level
  fullFilePath : ℕ
  line : BitVec 32
  text : BString
  now : BitVec 64
  accepts : BString → Bool

section Matching

variable (literals : Literals)

/-- What `isMatch` says -/
def isMatch (line : Line) (subscription : Subscription) : Bool :=
  (match subscription.file with
    | none => true
    | some (.internal address) => line.fullFilePath = address
    | some (.copied name) =>
        literals.text (literals.getShortName line.fullFilePath) = name) &&
  !decide (line.logLevel.code < subscription.level.code) &&
  (subscription.lineNum = 0 || decide (line.line.toInt = subscription.lineNum.toInt))

/-- What `isMatch` makes of the subscription -/
def swapName (line : Line) (subscription : Subscription) : Subscription :=
  match subscription.file with
  | some (.copied name) =>
      let shortFileName := literals.getShortName line.fullFilePath
      if literals.text shortFileName = name then
        { subscription with file := some (.internal shortFileName) }
      else subscription
  | _ => subscription

/-- What `isMatch` makes of the names of files -/
def rememberName (line : Line) (subscription : Subscription) (fileNames : ℕ → Option ℕ) :
    ℕ → Option ℕ :=
  match subscription.file with
  | some (.copied name) =>
      let shortFileName := literals.getShortName line.fullFilePath
      if literals.text shortFileName = name then
        match (List.range FILE_NAME_COUNT).find? fun i =>
            fileNames i = some shortFileName ∨ fileNames i = none with
        | none => fileNames
        | some i =>
            if fileNames i = some shortFileName then fileNames
            else Function.update (Function.update fileNames i (some shortFileName))
              ((i + 1) % FILE_NAME_COUNT) none
      else fileNames
  | _ => fileNames

/-- The keys of a message -/
abbrev STREAM_ID : BString := [0x73, 0x74, 0x72, 0x65, 0x61, 0x6D, 0x49, 0x64]

abbrev TIME : BString := [0x74, 0x69, 0x6D, 0x65]

abbrev LEVEL : BString := [0x6C, 0x65, 0x76, 0x65, 0x6C]

abbrev FILE : BString := [0x66, 0x69, 0x6C, 0x65]

abbrev LINE : BString := [0x6C, 0x69, 0x6E, 0x65]

abbrev MESSAGE : BString := [0x6D, 0x65, 0x73, 0x73, 0x61, 0x67, 0x65]

/-- The text of a line as `String_vprintf` cuts it, without the newline at its end -/
def stripped (text : BString) : BString :=
  let message := (cString text).take 1023
  if message.getLast? = some 0x0A then message.dropLast else message

/-- `makeLogMessage` -/
def makeLogMessage (line : Line) (subscription : Subscription) : Dict :=
  let shortName := literals.text (literals.getShortName line.fullFilePath)
  let out := Dict.nil.putObject STREAM_ID (.string (Hex.encode subscription.streamId))
  let out := out.putObject TIME (.integer line.now)
  let out := out.putObject LEVEL (.string line.logLevel.name)
  let out := out.putObject FILE (.string shortName)
  let out := out.putObject LINE (.integer (line.line.setWidth 64))
  out.putObject MESSAGE (.string (stripped line.text))

end Matching

/-- `removeSubscription`; where the last subscription is removed and others remain, it is copied onto
itself, which fails an assertion. -/
def removeSubscription (index : ℕ) (subscriptions : List Subscription) :
    Option (List Subscription) :=
  if subscriptions.length = 1 then some []
  else if index + 1 = subscriptions.length then none
  else some (SwapRemove.swapRemove index subscriptions)

end AdminLog

open AdminLog

/-- `struct AdminLog` -/
structure AdminLog where
  subscriptions : List Subscription
  fileNames : ℕ → Option ℕ

namespace AdminLog

/-- The log and the admin while a line goes through the subscriptions -/
structure Logging where
  subscriptions : List Subscription
  fileNames : ℕ → Option ℕ
  admin : Admin
  message : Option Dict
  /-- What has been sent, with the addresses -/
  sent : List (BString × Dict)

section Logging

variable (literals : Literals) (clock : BitVec 64)

/-- `isMatch` and `Admin_sendMessage`, for one subscription -/
structure Offered where
  logging : Logging
  /-- The subscription has to be removed. -/
  failed : Bool

/-- A turn of the loop of `doLog`, up to the removal -/
def offer (line : Line) (index : ℕ) (subscription : Subscription) (logging : Logging) : Offered :=
  let logging := { logging with
    subscriptions := logging.subscriptions.set index (swapName literals line subscription)
    fileNames := rememberName literals line subscription logging.fileNames }
  if isMatch literals line subscription then
    let message := logging.message.getD (makeLogMessage literals line subscription)
    let sent := logging.admin.sendMessage clock message subscription.txid
    match sent.delivered with
    | none =>
        { logging := { logging with admin := sent.admin, message := some message }, failed := true }
    | some (dest, message) =>
        if line.accepts dest then
          { logging := { logging with
              admin := sent.admin
              message := some message
              sent := logging.sent ++ [(dest, message)] }
            failed := false }
        else
          { logging := { logging with admin := sent.admin, message := some message }, failed := true }
  else { logging := logging, failed := false }

/-- The loop of `doLog`; a removal leaves fewer subscriptions to go through. -/
def logLoop (line : Line) : ℕ → ℕ → Logging → Option Logging
  | 0, _, logging => some logging
  | rounds + 1, index, logging =>
      match logging.subscriptions[index]? with
      | none => some logging
      | some subscription =>
          let offered := offer literals clock line index subscription logging
          if offered.failed then
            (removeSubscription index offered.logging.subscriptions).bind fun subscriptions =>
              logLoop line rounds (index + 1)
                { offered.logging with subscriptions := subscriptions }
          else logLoop line rounds (index + 1) offered.logging

/-- `doLog` -/
def doLog (line : Line) (log : AdminLog) (admin : Admin) : Option Logging :=
  logLoop literals clock line log.subscriptions.length 0
    { subscriptions := log.subscriptions
      fileNames := log.fileNames
      admin := admin
      message := none
      sent := [] }

end Logging

/-- The arguments of `subscribe`, the transaction id and the random stream id -/
structure Request where
  level : Option BString
  line : Option (BitVec 64)
  file : Option BString
  txid : BString
  streamId : BString

/-- The file name that a request gives -/
def Request.fileName (request : Request) : Option BString :=
  (request.file.filter fun bytes => decide (bytes.length > 0)).map cString

/-- The level that a request gives -/
def Request.logLevel (request : Request) : Level :=
  match request.level with
  | none => .DEBUG
  | some name => (levelForName name).getD .KEYS

/-- The end of `subscribe`, where the subscription is stored -/
def newSubscription (literals : Literals) (request : Request) (log : AdminLog) : Subscription where
  level := request.logLevel
  lineNum := (request.line.getD 0).setWidth 31
  file := request.fileName.map fun file =>
    match (List.range FILE_NAME_COUNT).findSome? fun i =>
        (log.fileNames i).filter fun address => literals.text address = file with
    | some address => .internal address
    | none => .copied file
  txid := request.txid
  streamId := request.streamId
  asked := { level := request.logLevel, line := request.line.getD 0, file := request.fileName }

/-- `subscribe`, without its response -/
def subscribe (literals : Literals) (request : Request) (log : AdminLog) : AdminLog :=
  if request.line.any fun line => decide (line.toInt < 0) then log
  else if log.subscriptions.length ≥ MAX_SUBSCRIPTIONS then log
  else { log with
    subscriptions := log.subscriptions ++ [log.newSubscription literals request] }

/-- The index that the loop of `unsubscribe` finds -/
def indexOf (streamIdHex : BString) (log : AdminLog) : Option ℕ :=
  if streamIdHex.length = 16 then
    (Hex.decode streamIdHex).bind fun streamId =>
      log.subscriptions.findIdx? fun subscription => subscription.streamId = streamId
  else none

/-- `unsubscribe`, without its response -/
def unsubscribe (streamIdHex : BString) (log : AdminLog) : Option AdminLog :=
  match log.indexOf streamIdHex with
  | none => some log
  | some index =>
      (removeSubscription index log.subscriptions).map fun subscriptions =>
        { log with subscriptions := subscriptions }

end AdminLog

end Cjdns
