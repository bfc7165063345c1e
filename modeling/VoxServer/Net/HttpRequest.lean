import VoxServer.Store.Envelope

/-! # Requests, responses and paths

The routes are found by plain tests on the path: prefixes, suffixes and occurrences of
a text. Query values are not decoded.
-/

namespace VoxServer.Http

inductive Verb | get | post | put | delete | other
  deriving DecidableEq, Repr

structure HttpRequest where
  method : Verb
  target : String
  body : String := ""
  version : ℕ := 11
  deriving DecidableEq, Repr

inductive HttpBody
  | empty
  | json (v : Json)
  | file (bytes : String)

structure HttpResponse where
  version : ℕ
  status : ℕ
  body : HttpBody

/-- What a handler ends with. Without a response the next handler is asked, and an exception is
answered by the session. -/
inductive Handled
  | unhandled
  | threw
  | response (r : HttpResponse)

section Text

/-- What follows the text `pre`, if the path starts with it. -/
def after? (pre path : String) : Option String :=
  if pre.toList.isPrefixOf path.toList then
    some (String.ofList (path.toList.drop pre.toList.length))
  else none

/-- What comes before the text `suf`, if the path ends with it. -/
def before? (suf path : String) : Option String :=
  if suf.toList.isSuffixOf path.toList then
    some (String.ofList (path.toList.take (path.toList.length - suf.toList.length)))
  else none

/-- The parts before and after the first occurrence of a text, if there is one. -/
def find? (sub : List Char) : List Char → Option (List Char × List Char)
  | [] => if sub = [] then some ([], []) else none
  | c :: cs =>
    if sub.isPrefixOf (c :: cs) then some ([], (c :: cs).drop sub.length)
    else (find? sub cs).map fun p => (c :: p.1, p.2)

def occurs (sub path : String) : Bool := (find? sub.toList path.toList).isSome

def pathOnly (target : String) : String :=
  match Text.splitAtFirst '?' target.toList with
  | none => target
  | some (path, _) => String.ofList path

def queryPairs (target : String) : List (String × String) :=
  match Text.splitAtFirst '?' target.toList with
  | none => []
  | some (_, query) => (query.splitOn '&').filterMap fun pair =>
    (Text.splitAtFirst '=' pair).map fun p => (String.ofList p.1, String.ofList p.2)

def queryParam (target key : String) : Option String :=
  ((queryPairs target).find? (·.1 = key)).map Prod.snd

def trim (cs : List Char) : List Char :=
  ((cs.dropWhile (· = ' ')).reverse.dropWhile (· = ' ')).reverse

def commaSeparatedIds (v : String) : List String :=
  ((v.toList.splitOn ',').map trim).filterMap fun piece =>
    if piece = [] then none else some (String.ofList piece)

def parseIdsQuery (target : String) : List String :=
  ((queryPairs target).filter (·.1 = "ids")).flatMap fun p => commaSeparatedIds p.2

/-- `std::stoull`, with no value where it throws. A negative number wraps around. -/
def stoull (cs : List Char) : Option UInt64 :=
  ((Text.leading cs).filter fun v => -2 ^ 64 < v ∧ v < 2 ^ 64).map UInt64.ofInt

end Text

section Paths

/-- The first segment after the text `pre`, and what follows the slash. -/
def splitPrefixedPath (path pre : String) : Option (String × String) :=
  (after? pre path).bind fun rest =>
    (Text.splitAtFirst '/' rest.toList).map fun p => (String.ofList p.1, String.ofList p.2)

def splitConvSubPath (path : String) : Option (String × String) :=
  splitPrefixedPath path "/v1/conversations/"

def splitDeviceSubPath (path suf : String) : Option String :=
  (splitPrefixedPath path "/v1/devices/").bind fun p => if p.2 = suf then some p.1 else none

def splitUserDeviceSubPath (path suf : String) : Option (String × String) := do
  let rest ← after? "/v1/users/" path
  let (uid, afterMid) ← find? "/devices/".toList rest.toList
  let (did, tail) ← Text.splitAtFirst '/' afterMid
  if String.ofList tail = suf then some (String.ofList uid, String.ofList did) else none

def conversationIdOnly (path : String) : Option String :=
  (after? "/v1/conversations/" path).filter fun rest => rest ≠ "" ∧ '/' ∉ rest.toList

/-- The first segment after `/v1/attachments/`, whatever follows it. -/
def splitAttachmentSubPath (path : String) : Option String :=
  match after? "/v1/attachments/" path with
  | none => none
  | some rest =>
    if rest = "" then none else some (String.ofList (rest.toList.takeWhile (· ≠ '/')))

end Paths

section Responses

def kDefaultPaginationLimit : UInt64 := 100
def kDefaultUserSearchLimit : UInt64 := 20
def kMaxUserSearchLimit : UInt64 := 50
def kMaxUserBatchIds : ℕ := 100

def httpStatusForError : ErrorCode → ℕ
  | .notFound => 404
  | .alreadyExists => 409
  | .unauthorized => 401
  | .forbidden => 403
  | .invalidArgument => 400
  | .quotaExceeded => 413
  | .rateLimited => 429
  | .expired => 401
  | .duplicate => 409
  | .queueFull => 503
  | .payloadTooLarge => 413
  | _ => 500

def errorNumber : ErrorCode → ℤ
  | .ok => 0
  | .notFound => 1
  | .alreadyExists => 2
  | .unauthorized => 3
  | .forbidden => 4
  | .invalidArgument => 5
  | .internal => 6
  | .quotaExceeded => 7
  | .rateLimited => 8
  | .shutdown => 9
  | .queueFull => 10
  | .expired => 11
  | .duplicate => 12
  | .payloadTooLarge => 13

def jsonRes (version status : ℕ) (v : Json) : Handled := .response ⟨version, status, .json v⟩

def errObj (e : Error) : Json :=
  .obj [("error", .obj [("code", .int (errorNumber e.code)), ("message", .str e.message)])]

def errRes (version status : ℕ) (e : Error) : Handled := jsonRes version status (errObj e)

def serviceError (version : ℕ) (e : Error) : Handled :=
  errRes version (httpStatusForError e.code) e

/-- The value of a string field, up to its first zero byte. -/
def jsonString (o : List (String × Json)) (key : String) : Option String :=
  match o.lookup key with
  | some (.str s) => some (String.ofList (s.toList.takeWhile (· ≠ '\x00')))
  | _ => none

end Responses

end VoxServer.Http
