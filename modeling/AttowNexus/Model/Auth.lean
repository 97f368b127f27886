import AttowNexus.Model.Ambient
import AttowNexus.Model.Utf8

/-! # Bearer tokens

`auth/token.rs`. A header map keeps its values in order and is asked for the first one of a name; a value
is any byte string, and only visible ASCII, spaces and tabs can be read as text.
-/

namespace AttowNexus

/-- The configuration that the two validators read. -/
structure AuthConfig extends Config where
  authToken : Option String
deriving DecidableEq

/-- `HeaderMap` and `MetadataMap`. -/
abbrev HeaderMap := List (String × Bytes)

/-- `HeaderMap::get` -/
def HeaderMap.get (headers : HeaderMap) (name : String) : Option Bytes :=
  (headers.find? (·.1 = name)).map (·.2)

def isVisibleAscii (byte : UInt8) : Bool := (0x20 ≤ byte && byte < 0x7F) || byte = 0x09

/-- The text of bytes that are characters of their own. -/
def asciiText (value : Bytes) : String := String.ofList (value.map fun byte => Char.ofNat byte.toNat)

/-- `HeaderValue::to_str` -/
def HeaderMap.toStr (value : Bytes) : Option String :=
  if value.all isVisibleAscii then some (asciiText value) else none

/-- `str::strip_prefix` -/
def stripPrefix (text lead : String) : Option String :=
  if lead.toList.isPrefixOf text.toList then some (String.ofList (text.toList.drop lead.length)) else none

def constantTimeEq (a b : Bytes) : Bool :=
  if a.length ≠ b.length then false
  else (a.zip b).foldl (fun acc pair => acc ||| (pair.1 ^^^ pair.2)) 0 = 0

inductive HttpRefusal where
  | unauthorized
  | forbidden
deriving DecidableEq, Repr

/-- The refusals of a tonic `Status`, with their messages. -/
inductive Status where
  | unauthenticated (message : String)
  | permissionDenied (message : String)
deriving DecidableEq, Repr

/-- A gRPC request with its metadata. -/
structure GrpcRequest (ρ : Type) where
  metadata : HeaderMap
  message : ρ

def validateHttp (headers : HeaderMap) (config : AuthConfig) : Except HttpRefusal Unit :=
  if config.requireAuth = false then .ok ()
  else
    match config.authToken with
    | none => .error .unauthorized
    | some expected =>
        match ((headers.get "authorization").bind HeaderMap.toStr).bind (stripPrefix · "Bearer ") with
        | none => .error .unauthorized
        | some actual =>
            if constantTimeEq (utf8Bytes actual) (utf8Bytes expected) then .ok () else .error .forbidden

def validateGrpc {ρ : Type} (request : GrpcRequest ρ) (config : AuthConfig) : Except Status (GrpcRequest ρ) :=
  if config.requireAuth = false then .ok request
  else
    match config.authToken with
    | none => .error (.unauthenticated "auth token required")
    | some expected =>
        match ((request.metadata.get "authorization").bind HeaderMap.toStr).bind (stripPrefix · "Bearer ") with
        | none => .error (.unauthenticated "bearer token required")
        | some actual =>
            if constantTimeEq (utf8Bytes actual) (utf8Bytes expected) then .ok request
            else .error (.permissionDenied "invalid bearer token")

end AttowNexus
