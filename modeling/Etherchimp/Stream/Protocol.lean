import Etherchimp.Capture.Packet
import Etherchimp.Graph.Filter

/-!
# Streams, their protocol and their summary

The record kept for one TCP or UDP stream, the guess at its application protocol
and the line shown for it in the list. Summaries are cut out of payload bytes, so
they are byte strings here.
-/

namespace Etherchimp

/-- The transport of a stream. -/
inductive StreamType where
  | tcp
  | udp
  deriving DecidableEq

def StreamType.text : StreamType → String
  | .tcp => "TCP"
  | .udp => "UDP"

/-- The detected application protocol; `unset` is what a new stream starts with. -/
inductive StreamProtocol where
  | unset
  | http
  | https
  | dns
  | smtp
  | ftp
  | ssh
  | telnet
  | mysql
  | postgres
  | redis
  | slurm
  | influxDB
  | unknown
  deriving DecidableEq

/-- The side a packet of a stream was sent by. -/
inductive StreamDirection where
  | request
  | response
  deriving DecidableEq

/-- A stored packet of a stream. -/
structure StreamPacket where
  timestamp : Int
  direction : StreamDirection
  length : Nat
  payload : List UInt8
  deriving DecidableEq

/-- A TCP or UDP stream. -/
structure Stream where
  id : String
  type : StreamType
  protocol : StreamProtocol := .unset
  srcIP : String
  srcPort : UInt16
  dstIP : String
  dstPort : UInt16
  startTime : Int
  lastSeen : Int
  packetCount : Nat := 0
  byteCount : Nat := 0
  packets : List StreamPacket := []
  summary : List UInt8 := []
  requestData : List UInt8 := []
  responseData : List UInt8 := []
  /-- The stream's element in the manager's LRU list. -/
  orderElem : Nat
  deriving DecidableEq

/-! ## The protocol -/

/-- The names the capture layer may have found already. -/
def protocolOfName : String → Option StreamProtocol
  | "HTTP" => some .http
  | "HTTPS" => some .https
  | "DNS" => some .dns
  | "SSH" => some .ssh
  | "FTP" => some .ftp
  | "SMTP" => some .smtp
  | "Telnet" => some .telnet
  | "MySQL" => some .mysql
  | "PostgreSQL" => some .postgres
  | "Redis" => some .redis
  | "Slurm" => some .slurm
  | "InfluxDB" => some .influxDB
  | _ => none

def protocolOfPort (port : UInt16) : Option StreamProtocol :=
  if port ∈ [80, 8080, 8000, 3000] then some .http
  else if port ∈ [443, 8443] then some .https
  else if port = 53 then some .dns
  else if port = 22 then some .ssh
  else if port = 21 then some .ftp
  else if port ∈ [25, 587, 465] then some .smtp
  else if port = 23 then some .telnet
  else if port = 3306 then some .mysql
  else if port = 5432 then some .postgres
  else if port = 6379 then some .redis
  else if port ∈ [6817, 6818] then some .slurm
  else if port = 8086 then some .influxDB
  else none

/-- What the first bytes of the requests look like. -/
def protocolOfPayload (payload : List UInt8) : Option StreamProtocol :=
  let payloadStr := payload.take 100
  if ["GET ", "POST ", "PUT ", "DELETE ", "HEAD ", "OPTIONS ", "HTTP/"].any
      fun p => (utf8 p).isPrefixOf payloadStr then some .http
  else if (utf8 "SSH-").isPrefixOf payloadStr then some .ssh
  else if ["EHLO ", "HELO ", "MAIL FROM:"].any fun p => (utf8 p).isPrefixOf payloadStr then
    some .smtp
  else none

/-- `detectProtocol`: the name first, then the ports, then the request bytes. -/
def Stream.detectProtocol (pkt : PacketInfo) (stream : Stream) : StreamProtocol :=
  (protocolOfName pkt.protocol.name
    <|> protocolOfPort pkt.srcPort <|> protocolOfPort pkt.dstPort
    <|> protocolOfPayload stream.requestData).getD .unknown

/-! ## The summary -/

/-- The white space of a regular expression's `\s`. -/
def isRegexpSpace (b : UInt8) : Bool := b ∈ [9, 10, 12, 13, 32]

/-- `strings.Split(data, "\r\n")[0]`. -/
def firstLine : List UInt8 → List UInt8
  | 13 :: 10 :: _ => []
  | b :: rest => b :: firstLine rest
  | [] => []

/--
`httpReqRe` against a line: the method and the path of `METHOD path HTTP`. Both
runs of white space and the path are maximal in any match, as each is followed by
a byte of the other kind.
-/
def matchHTTPRequest (line : List UInt8) : Option (List UInt8 × List UInt8) := do
  let method ← ["GET", "POST", "PUT", "DELETE", "HEAD", "OPTIONS", "PATCH"].find?
    fun m => (utf8 m).isPrefixOf line
  let rest := line.drop (utf8 method).length
  let afterMethod := rest.dropWhile isRegexpSpace
  let path := afterMethod.takeWhile fun b => !isRegexpSpace b
  let tail := afterMethod.dropWhile fun b => !isRegexpSpace b
  if afterMethod.length < rest.length ∧ path ≠ []
      ∧ (tail.dropWhile isRegexpSpace).length < tail.length
      ∧ (utf8 "HTTP").isPrefixOf (tail.dropWhile isRegexpSpace) then
    some (utf8 method, path)
  else none

/-- `smtpFromRe`: the first sender between `MAIL FROM:<` and `>`. -/
def matchSMTPFrom : List UInt8 → Option (List UInt8)
  | [] => none
  | b :: rest =>
    let opening := utf8 "MAIL FROM:<"
    let sender := ((b :: rest).drop opening.length).takeWhile (· ≠ 62)
    let closed := ((b :: rest).drop (opening.length + sender.length)).head? = some 62
    if opening.isPrefixOf (b :: rest) ∧ sender ≠ [] ∧ closed then some sender
    else matchSMTPFrom rest

def extractHTTPSummary (stream : Stream) : List UInt8 :=
  if stream.requestData = [] then utf8 "HTTP (no data)"
  else
    match matchHTTPRequest (firstLine (stream.requestData.take 500)) with
    | some (method, path) =>
        let path := if 50 < path.length then path.take 50 ++ utf8 "..." else path
        method ++ utf8 " " ++ path
    | none => utf8 "HTTP Request"

def extractDNSSummary (stream : Stream) : List UInt8 :=
  utf8 ("DNS Query (" ++ toString stream.byteCount ++ " bytes)")

def extractSMTPSummary (stream : Stream) : List UInt8 :=
  if stream.requestData = [] then utf8 "SMTP (no data)"
  else
    match matchSMTPFrom (stream.requestData.take 500) with
    | some sender => utf8 "SMTP from " ++ sender
    | none => utf8 "SMTP Session"

/-- The line shown for a stream. -/
def generateSummary (stream : Stream) : List UInt8 :=
  match stream.protocol with
  | .http => extractHTTPSummary stream
  | .dns => extractDNSSummary stream
  | .ssh => utf8 "SSH Session"
  | .smtp => extractSMTPSummary stream
  | .ftp => utf8 "FTP Session"
  | .slurm => utf8 "Slurm RPC"
  | .influxDB => utf8 "InfluxDB query"
  | _ => utf8 (stream.type.text ++ " stream (" ++ toString stream.packetCount ++ " packets)")

end Etherchimp
