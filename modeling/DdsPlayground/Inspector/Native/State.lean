import DdsPlayground.Core.Wire
import Mathlib.Data.Finmap

/-!
# Data model of the wire inspector

The globals of `inspector.cpp`, the RTPS constants and GUID types, and what the
program prints. Standard output and standard error are lists of records: a
record keeps every value that its `std::cout` or `std::fprintf` statement
inserts, and the fixed text around the values is its constructor.
-/

namespace DdsPlayground.Inspector

open ByteWire

/-! ## Text -/

/-- A `std::string`: bytes of any value, without a terminator. -/
abbrev Text := List UInt8

/-- The bytes of a string literal. -/
def text (s : String) : Text := s.toUTF8.data.toList

/-- `std::to_string` of a signed number. -/
def toText (n : Int) : Text := text (toString n)

/-! ## Print mode and counters -/

/-- What is printed on standard output. -/
inductive PrintMode where
  | both
  | reannounce
  | traffic
  deriving DecidableEq, Repr

/-- The settings that the command line and the machine fix for a whole run. -/
structure Config where
  /-- `g_print_mode`. -/
  printMode : PrintMode
  /-- `g_verbose`. -/
  verbose : Bool
  /-- The host stores integers little-endian. -/
  hostLe : Bool
  deriving DecidableEq, Repr

/-! ## RTPS protocol constants -/

/-- The four bytes at the start of every RTPS message. -/
def rtpsMagic : Bytes := [0x52, 0x54, 0x50, 0x53]

def smPad : UInt8 := 0x01
def smHeartbeat : UInt8 := 0x07
def smInfoTs : UInt8 := 0x0C
def smInfoSrc : UInt8 := 0x0E
def smData : UInt8 := 0x15

def pidSentinel : UInt16 := 0x0001
def pidTopicName : UInt16 := 0x0005
def pidTypeName : UInt16 := 0x0007
def pidEndpointGuid : UInt16 := 0x005A

/-! ## GUID types and helpers -/

/-- `struct GuidPrefix`. -/
abbrev GuidPrefix := List.Vector UInt8 12

/-- `struct EntityId`. -/
abbrev EntityId := List.Vector UInt8 4

/-- The entity kind, the last octet. -/
def EntityId.kind (e : EntityId) : UInt8 := e.get 3

/-- The raw 16 bytes that name an endpoint. -/
structure Guid where
  guidPrefix : GuidPrefix
  entity : EntityId
  deriving DecidableEq

def eidSpdpWriter : EntityId := ⟨[0x00, 0x01, 0x00, 0xC2], rfl⟩
def eidSedpPubWriter : EntityId := ⟨[0x00, 0x00, 0x03, 0xC2], rfl⟩
def eidSedpSubWriter : EntityId := ⟨[0x00, 0x00, 0x04, 0xC2], rfl⟩

/-- One lower-case hexadecimal digit. -/
def hexDigit (n : UInt8) : UInt8 := if n < 10 then 0x30 + n else 0x57 + n

/-- The conversion `%02x` of a byte. -/
def hex02 (b : UInt8) : Text := [hexDigit (b >>> 4), hexDigit (b &&& 0x0F)]

/-- What a buffer of `size` bytes holds after `snprintf`: the terminator takes one. -/
def snprintf (size : Nat) (s : Text) : Text := s.take (size - 1)

/-- The characters that the format of `fmt_prefix` produces. -/
def prefixFormat (p : GuidPrefix) : Text :=
  hex02 (p.get 0) ++ hex02 (p.get 1) ++ hex02 (p.get 2) ++ hex02 (p.get 3) ++ text ":" ++
    hex02 (p.get 4) ++ hex02 (p.get 5) ++ hex02 (p.get 6) ++ hex02 (p.get 7) ++ text ":" ++
    hex02 (p.get 8) ++ hex02 (p.get 9) ++ hex02 (p.get 10) ++ hex02 (p.get 11)

/-- `fmt_prefix`, with its buffer of 40 bytes. -/
def fmtPrefix (p : GuidPrefix) : Text := snprintf 40 (prefixFormat p)

/-- The characters that the format of `fmt_entity` produces. -/
def entityFormat (e : EntityId) : Text :=
  hex02 (e.get 0) ++ hex02 (e.get 1) ++ hex02 (e.get 2) ++ text "|" ++ hex02 (e.get 3)

/-- `fmt_entity`, with its buffer of 12 bytes. -/
def fmtEntity (e : EntityId) : Text := snprintf 12 (entityFormat e)

/-- `fmt_guid`, the key of the endpoint registry. -/
def fmtGuid (g : Guid) : Text := fmtPrefix g.guidPrefix ++ text ":" ++ fmtEntity g.entity

/-! ## Endpoint registry -/

/-- `struct EndpointInfo`. -/
structure EndpointInfo where
  topic : Text
  typeName : Text
  isWriter : Bool
  deriving DecidableEq, Repr

/-- `g_endpoints`, a finite map from the text of a GUID. -/
abbrev Registry := Finmap fun _ : Text => EndpointInfo

/-! ## Output -/

/-- `struct timeval`. -/
structure Timeval where
  tvSec : Int
  tvUsec : Int
  deriving DecidableEq, Repr

/-- The addressing of a datagram that `handle_rtps` is told. -/
structure Origin where
  srcIp : Text
  srcPort : UInt16
  dstPort : UInt16
  ts : Timeval
  deriving DecidableEq, Repr

/-- One record on standard output. -/
inductive Record where
  /-- A participant notice. -/
  | spdp (origin : Origin) (participant : Text)
  /-- A registered announcement; `tracking` is the line on traffic tracking. -/
  | sedp (isPub reannounce : Bool) (guid topic typeName : Text) (tracking : Bool)
  /-- A user-data message. -/
  | data (origin : Origin) (writerGuid readerEid topic : Text) (seq : Int64) (payload : Text)
  /-- The warning that discovery was missed. -/
  | missedSedp
  deriving DecidableEq

/-- One diagnostic line on standard error. -/
inductive Diag where
  | noMagic (origin : Origin) (len : Nat) (first4 : List UInt8)
  | submsg (smId smFlags : UInt8) (smLen : UInt16)
  | data (writer : EntityId) (hasData hasQos : Bool) (plLen : Nat)
      (isSpdp isSedpPub isSedpSub : Bool)
  | packet (captured : Nat) (iface : Text) (origin : Origin) (udpPayload : Nat)
  | stats (captured rtps sedp data endpointsKnown : Nat)
  deriving DecidableEq

/-- The mutable globals, with everything printed so far. -/
structure Globals where
  /-- `g_endpoints`. -/
  endpoints : Registry
  /-- `g_cnt_captured`. -/
  cntCaptured : Nat
  /-- `g_cnt_rtps`. -/
  cntRtps : Nat
  /-- `g_cnt_sedp`. -/
  cntSedp : Nat
  /-- `g_cnt_data`. -/
  cntData : Nat
  /-- Standard output. -/
  cout : List Record
  /-- Standard error. -/
  cerr : List Diag
  deriving DecidableEq

/-- The globals at program start. -/
def Globals.init : Globals := ⟨∅, 0, 0, 0, 0, [], []⟩

/-- Print a record when the flag allows it. -/
def Globals.print (g : Globals) (shown : Bool) (r : Record) : Globals :=
  if shown then { g with cout := g.cout ++ [r] } else g

/-- Print a diagnostic in verbose mode. -/
def Globals.diag (g : Globals) (verbose : Bool) (d : Diag) : Globals :=
  if verbose then { g with cerr := g.cerr ++ [d] } else g

end DdsPlayground.Inspector
