import Etherchimp.Capture.Format
import Etherchimp.Lib.Base64
import Etherchimp.Stream.Manager

/-!
# One stream in detail

What the stream panel asks for by id: the listing's fields, the stored packets, the two
payloads in base64 and as dumps, and a text for reading.
-/

namespace Etherchimp

/-- The bytes that `asciiText` keeps, and dots. -/
def sanitizeForDisplay (data : List UInt8) : String := String.ofList (data.map textByte)

/-- How much of a payload the panel dumps. -/
def maxPanelBytes : Nat := 4096

/-- A side of the text for protocols that are not text. -/
def panelDump (data : List UInt8) : String :=
  if data ≠ [] then formatHexDump (data.take maxPanelBytes) else "(empty)\n"

def decodeStreamContent (stream : Stream) : String :=
  match stream.protocol with
  | .http =>
      (if stream.requestData ≠ [] then
        "=== REQUEST ===\n" ++ sanitizeForDisplay stream.requestData ++ "\n\n" else "")
      ++ (if stream.responseData ≠ [] then
        "=== RESPONSE ===\n" ++ sanitizeForDisplay stream.responseData else "")
  | .smtp =>
      "=== SMTP SESSION ===\n"
      ++ (if stream.requestData ≠ [] then sanitizeForDisplay stream.requestData else "")
  | _ =>
      "=== REQUEST DATA ===\n" ++ panelDump stream.requestData
      ++ "\n=== RESPONSE DATA ===\n" ++ panelDump stream.responseData

/-- A stream in a listing. -/
structure StreamInfo where
  id : String
  type : StreamType
  protocol : StreamProtocol
  srcIP : String
  srcPort : UInt16
  dstIP : String
  dstPort : UInt16
  startTime : Int
  lastSeen : Int
  packetCount : Nat
  byteCount : Nat
  summary : List UInt8

structure StreamDetail extends StreamInfo where
  packets : List StreamPacket
  requestPayload : String
  responsePayload : String
  decodedContent : String
  requestHex : String := ""
  responseHex : String := ""

/-- The detail of a stream that was found. -/
def Stream.detail (stream : Stream) : StreamDetail where
  id := stream.id
  type := stream.type
  protocol := stream.protocol
  srcIP := stream.srcIP
  srcPort := stream.srcPort
  dstIP := stream.dstIP
  dstPort := stream.dstPort
  startTime := stream.startTime
  lastSeen := stream.lastSeen
  packetCount := stream.packetCount
  byteCount := stream.byteCount
  summary := stream.summary
  packets := stream.packets
  requestPayload := String.ofList (Base64.encode stream.requestData)
  responsePayload := String.ofList (Base64.encode stream.responseData)
  decodedContent := decodeStreamContent stream
  requestHex :=
    if stream.requestData ≠ [] then hexDumpText stream.requestData maxPanelBytes else ""
  responseHex :=
    if stream.responseData ≠ [] then hexDumpText stream.responseData maxPanelBytes else ""

def StreamManager.getStream (m : StreamManager) (id : String) : Except String StreamDetail :=
  match m.streams.lookup id with
  | none => .error ("stream not found: " ++ id)
  | some stream => .ok stream.detail

end Etherchimp
