import Etherchimp.Graph.Subnet
import Etherchimp.Lib.Runtime
import Etherchimp.Server.Client

/-!
# The display filter

The search box takes a small filter language over the graph's nodes: comparisons of a
field with a value, protocol keywords, and the connectives between them. A query is
split into tokens, the tokens are parsed into a predicate, and the predicate is asked
of every node. Query text is bytes: nothing checks that it is UTF-8.

The tokenizer's loop need not end, so it is given as its single iteration and the
state that iteration acts on; `tokenizeFilter` is `none` where the loop does not end.
-/

namespace Etherchimp

open Wire (Bytes)

variable [RuneCase]

/-! ## Text -/

/-- The bytes of a literal of the source. -/
def ascii (s : String) : Bytes := s.toList.map Char.toUInt8

/-- The runes of a string; a byte that starts none is U+FFFD. -/
def runes (s : Bytes) : List Char :=
  match s with
  | [] => []
  | b :: rest =>
      match ByteArray.utf8DecodeChar? (b :: rest).toByteArray 0 with
      | some c => c :: runes (rest.drop (c.utf8Size - 1))
      | none => Char.ofNat 0xFFFD :: runes rest
termination_by s.length

def lowerByte (b : UInt8) : UInt8 :=
  if 'A'.toUInt8 ≤ b ∧ b ≤ 'Z'.toUInt8 then b + 32 else b

/-- `strings.ToLower`: byte by byte where all is ASCII, otherwise rune by rune. -/
def lowerText (s : Bytes) : Bytes :=
  if s.all (· < 128) then s.map lowerByte
  else (runes s).flatMap fun c => String.utf8EncodeChar (RuneCase.toLower c)

/-- Text for the parsers of numbers and addresses, which look at ASCII only. -/
def latin1 (s : Bytes) : String := String.ofList (s.map fun b => Char.ofNat b.toNat)

/-- `strings.Contains` -/
def containsText (s sub : Bytes) : Bool := sub <:+: s

/-- `strconv.Atoi` -/
def atoi (s : Bytes) : Option Int :=
  let neg := s.head? = some '-'.toUInt8
  let digits := if neg ∨ s.head? = some '+'.toUInt8 then s.drop 1 else s
  if digits = [] ∨ ¬ digits.all fun b => '0'.toUInt8 ≤ b ∧ b ≤ '9'.toUInt8 then none
  else
    let n := digits.foldl (fun n b => 10 * n + (b.toNat - '0'.toNat)) 0
    let v : Int := if neg then -(n : Int) else n
    if -2 ^ 63 ≤ v ∧ v < 2 ^ 63 then some v else none

/-! ## Subnets -/

structure IPNet where
  ip : List Nat
  mask : List Nat

/-- `net.CIDRMask`, over a number of bytes. -/
def cidrMask (ones bytes : Nat) : List Nat :=
  (List.range bytes).map fun i => 256 - 2 ^ (8 - min 8 (ones - 8 * i))

/-- `net.ParseCIDR`, the network alone. -/
def parseCIDR (s : String) : Option IPNet :=
  let addr := s.toList.takeWhile (· ≠ '/')
  match s.toList.drop addr.length with
  | [] => none
  | _ :: bits =>
      match parseIP (String.ofList addr) with
      | none => none
      | some ip =>
          -- dotted text is an address of four bytes, also when it is kept in sixteen
          let dotted := (addr.find? fun c => c = '.' ∨ c = ':' ∨ c = '%') = some '.'
          let ip := if dotted then ip.drop 12 else ip
          let n := bits.foldl (fun n c => 10 * n + (c.toNat - '0'.toNat)) 0
          if bits = [] ∨ ¬ bits.all Char.isDigit ∨ 8 * ip.length < n then none
          else
            let mask := cidrMask n ip.length
            some ⟨List.zipWith (· &&& ·) ip mask, mask⟩

/-- `IPNet.Contains` -/
def IPNet.contains (n : IPNet) (ip : List Nat) : Bool :=
  let nn := (to4 n.ip).getD n.ip
  let m := if nn.length = 4 ∧ n.mask.length = 16 then n.mask.drop 12 else n.mask
  let x := (to4 ip).getD ip
  nn.length == x.length && List.zipWith (· &&& ·) nn m == List.zipWith (· &&& ·) x m

/-! ## The tokenizer -/

inductive TokKind
  | tokWord
  | tokString
  | tokOp
  | tokAnd
  | tokOr
  | tokNot
  | tokLParen
  | tokRParen
  deriving DecidableEq

structure Token where
  kind : TokKind
  val : Bytes
  deriving DecidableEq

open TokKind

def isBlank (c : UInt8) : Bool :=
  c == ' '.toUInt8 || c == '\t'.toUInt8 || c == '\n'.toUInt8 || c == '\r'.toUInt8

def isQuote (c : UInt8) : Bool := c == '"'.toUInt8 || c == '\''.toUInt8

/-- The bytes a bareword is made of: all but its delimiters. -/
def isWordByte (c : UInt8) : Bool :=
  !(isBlank c || c == '('.toUInt8 || c == ')'.toUInt8 || isQuote c || c == '='.toUInt8
    || c == '!'.toUInt8 || c == '&'.toUInt8 || c == '|'.toUInt8)

/-- The token of a bareword: a connective, an operator or a word. -/
def wordToken (w : Bytes) : Token :=
  let l := lowerText w
  if l = ascii "and" then ⟨tokAnd, ascii "and"⟩
  else if l = ascii "or" then ⟨tokOr, ascii "or"⟩
  else if l = ascii "not" then ⟨tokNot, ascii "not"⟩
  else if l = ascii "contains" ∨ l = ascii "eq" ∨ l = ascii "ne" then ⟨tokOp, l⟩
  else ⟨tokWord, w⟩

/-- The bytes of a quoted string from behind its quote on; its end may not be quoted. -/
def quotedSize (quote : UInt8) (r : Bytes) : Nat :=
  let n := (r.takeWhile (· ≠ quote)).length
  if n < r.length then n + 1 else n

/-- One iteration at the unread text: the tokens it appends, and how far the index moves. -/
def nextToken : Bytes → List Token × Nat
  | [] => ([], 0)
  | c :: rest =>
      let twice := rest.head? = some c
      let eqNext := rest.head? = some '='.toUInt8
      if isBlank c then ([], 1)
      else if c = '('.toUInt8 then ([⟨tokLParen, ascii "("⟩], 1)
      else if c = ')'.toUInt8 then ([⟨tokRParen, ascii ")"⟩], 1)
      else if isQuote c then
        ([⟨tokString, rest.takeWhile (· ≠ c)⟩], 1 + quotedSize c rest)
      else if c = '='.toUInt8 ∧ twice then ([⟨tokOp, ascii "=="⟩], 2)
      else if c = '!'.toUInt8 ∧ eqNext then ([⟨tokOp, ascii "!="⟩], 2)
      else if c = '!'.toUInt8 then ([⟨tokNot, ascii "!"⟩], 1)
      else if c = '&'.toUInt8 ∧ twice then ([⟨tokAnd, ascii "&&"⟩], 2)
      else if c = '|'.toUInt8 ∧ twice then ([⟨tokOr, ascii "||"⟩], 2)
      else
        let w := (c :: rest).takeWhile isWordByte
        ([wordToken w], w.length)

/-- The variables of the loop. -/
structure LexState where
  toks : List Token := []
  i : Nat := 0

/-- One iteration. -/
def lexStep (s : Bytes) (st : LexState) : LexState :=
  let r := nextToken (s.drop st.i)
  { toks := st.toks ++ r.1, i := st.i + r.2 }

/-- At most so many iterations; `none` when they do not reach the end of the text. -/
def tokenizeLoop (s : Bytes) : Nat → LexState → Option (List Token)
  | 0, st => if st.i < s.length then none else some st.toks
  | fuel + 1, st => if st.i < s.length then tokenizeLoop s fuel (lexStep s st) else some st.toks

/-- As many iterations as there are bytes: a loop that takes more takes no end of them. -/
def tokenizeFilter (s : Bytes) : Option (List Token) := tokenizeLoop s s.length {}

/-! ## Predicates -/

structure NodeCtx where
  id : String
  node : Node
  /-- The lowercase protocol names on the node's edges. -/
  protos : KeyedMap Bytes Bool

def NodeCtx.ipStrings (c : NodeCtx) : List String := c.id :: c.node.ips

abbrev Predicate := NodeCtx → Bool

/-- `errParse` -/
def errParse : String := "bad filter"

def knownProtocols : List String :=
  ["tcp", "udp", "icmp", "icmpv6", "arp", "dns", "mdns", "http", "https", "tls", "ssl", "quic",
    "dhcp", "ntp", "snmp", "ssh", "ftp", "smtp", "ntlm", "smb", "lldp", "cdp", "stp", "ospf",
    "bgp"]

def isKnownProtocol (w : Bytes) : Bool := knownProtocols.any fun p => ascii p == w

def ipFields : List String := ["ip.addr", "ip.src", "ip.dst", "ip", "ip.host"]

def macFields : List String := ["eth.addr", "eth.src", "eth.dst", "eth", "mac"]

def hostFields : List String := ["host", "hostname", "dns", "dns.qry.name", "http.host"]

def portFields : List String :=
  ["port", "tcp.port", "udp.port", "tcp.srcport", "tcp.dstport", "udp.srcport", "udp.dstport"]

/-- Payload text, which is no part of the graph. -/
def payloadFields : List String := ["frame", "data", "payload"]

/-- A field as it is spelled, in any letter case, is one of a family. -/
def isFieldOf (family : List String) (field : Bytes) : Bool :=
  family.any fun f => ascii f == lowerText field

def negatable (op : Bytes) (hit : Bool) : Bool :=
  if op = ascii "!=" ∨ op = ascii "ne" then !hit else hit

/-- How `contains` and the other operators compare two lowercase texts. -/
def textHit (op : Bytes) (s v : Bytes) : Bool :=
  if op = ascii "contains" then containsText s v else s == v

def ipComparison (op value : Bytes) : Predicate :=
  match parseCIDR (latin1 value) with
  | some cidr => fun c =>
      negatable op (c.ipStrings.any fun s => (parseIP s).any cidr.contains)
  | none => fun c =>
      negatable op (c.ipStrings.any fun s => textHit op (lowerText (utf8 s)) (lowerText value))

def macComparison (op value : Bytes) : Predicate := fun c =>
  negatable op (c.node.macs.any fun mac => textHit op (lowerText (utf8 mac)) (lowerText value))

def hostComparison (op value : Bytes) : Predicate := fun c =>
  negatable op (textHit op (lowerText (utf8 c.node.hostname)) (lowerText value))

/-- The port a value names, if it names one. -/
def portOf (value : Bytes) : Option UInt16 :=
  match atoi value with
  | some port => if port < 0 ∨ 65535 < port then none else some (UInt16.ofNat port.toNat)
  | none => none

def portComparison (op value : Bytes) : Predicate :=
  match portOf value with
  | none => fun _ => false
  | some pu => fun c => negatable op (c.node.listenPorts.lookup pu).isSome

def buildComparison (field op value : Bytes) : Except String Predicate :=
  if isFieldOf ipFields field then .ok (ipComparison op value)
  else if isFieldOf macFields field then .ok (macComparison op value)
  else if isFieldOf hostFields field then .ok (hostComparison op value)
  else if isFieldOf portFields field then .ok (portComparison op value)
  else if isFieldOf payloadFields field then .ok fun _ => false
  else .error errParse

/-! ## The parser -/

structure FilterParser where
  /-- The tokens from the position on. -/
  toks : List Token
  /-- Something was read that only a filter has. -/
  sawStructured : Bool := false

/-- A predicate, and the parser behind what it was read from. -/
abbrev Parsed (p : FilterParser) := Predicate × { q : FilterParser // q.toks.length < p.toks.length }

/-- The same, where the loop may have read nothing. -/
abbrev ParsedTail (p : FilterParser) :=
  Predicate × { q : FilterParser // q.toks.length ≤ p.toks.length }

mutual

def parseOr (p : FilterParser) : Except String (Parsed p) :=
  match parseAnd p with
  | .error e => .error e
  | .ok (left, q) =>
      have := q.2
      match orTail left q.1 with
      | .error e => .error e
      | .ok (pred, r) => .ok (pred, ⟨r.1, Nat.lt_of_le_of_lt r.2 q.2⟩)
termination_by (p.toks.length, 3)

/-- The loop of `parseOr`. -/
def orTail (left : Predicate) (p : FilterParser) : Except String (ParsedTail p) :=
  match p with
  | ⟨⟨tokOr, v⟩ :: rest, s⟩ =>
      match parseAnd ⟨rest, true⟩ with
      | .error e => .error e
      | .ok (right, q) =>
          have := q.2
          match orTail (fun c => left c || right c) q.1 with
          | .error e => .error e
          | .ok (pred, r) => .ok (pred, ⟨r.1, (r.2.trans_lt q.2).le.trans (Nat.le_succ _)⟩)
  | p => .ok (left, ⟨p, le_refl _⟩)
termination_by (p.toks.length, 0)
decreasing_by
  · exact Prod.Lex.left _ _ (Nat.lt_succ_self _)
  · exact Prod.Lex.left _ _ (q.2.trans (Nat.lt_succ_self _))

def parseAnd (p : FilterParser) : Except String (Parsed p) :=
  match parseNot p with
  | .error e => .error e
  | .ok (left, q) =>
      have := q.2
      match andTail left q.1 with
      | .error e => .error e
      | .ok (pred, r) => .ok (pred, ⟨r.1, Nat.lt_of_le_of_lt r.2 q.2⟩)
termination_by (p.toks.length, 2)

/-- The loop of `parseAnd`. -/
def andTail (left : Predicate) (p : FilterParser) : Except String (ParsedTail p) :=
  match p with
  | ⟨⟨tokAnd, v⟩ :: rest, s⟩ =>
      match parseNot ⟨rest, true⟩ with
      | .error e => .error e
      | .ok (right, q) =>
          have := q.2
          match andTail (fun c => left c && right c) q.1 with
          | .error e => .error e
          | .ok (pred, r) => .ok (pred, ⟨r.1, (r.2.trans_lt q.2).le.trans (Nat.le_succ _)⟩)
  | p => .ok (left, ⟨p, le_refl _⟩)
termination_by (p.toks.length, 0)
decreasing_by
  · exact Prod.Lex.left _ _ (Nat.lt_succ_self _)
  · exact Prod.Lex.left _ _ (q.2.trans (Nat.lt_succ_self _))

def parseNot (p : FilterParser) : Except String (Parsed p) :=
  match p with
  | ⟨⟨tokNot, v⟩ :: rest, s⟩ =>
      match parseNot ⟨rest, true⟩ with
      | .error e => .error e
      | .ok (inner, q) => .ok (fun c => !inner c, ⟨q.1, q.2.trans (Nat.lt_succ_self _)⟩)
  | p => parsePrimary p
termination_by (p.toks.length, 1)

def parsePrimary (p : FilterParser) : Except String (Parsed p) :=
  match p with
  | ⟨⟨tokLParen, _⟩ :: rest, _⟩ =>
      match parseOr ⟨rest, true⟩ with
      | .error e => .error e
      | .ok (inner, ⟨⟨⟨tokRParen, _⟩ :: rest', s⟩, h⟩) =>
          .ok (inner, ⟨⟨rest', s⟩, (Nat.lt_of_succ_lt h).trans (Nat.lt_succ_self _)⟩)
      | .ok _ => .error errParse
  | ⟨⟨tokWord, field⟩ :: ⟨tokOp, op⟩ :: ⟨kind, value⟩ :: rest, _⟩ =>
      if kind = tokWord ∨ kind = tokString then
        match buildComparison field op value with
        | .error e => .error e
        | .ok pred => .ok (pred, ⟨⟨rest, true⟩, Nat.lt_add_of_pos_right (by decide : 0 < 3)⟩)
      else .error errParse
  | ⟨[⟨tokWord, _⟩, ⟨tokOp, _⟩], _⟩ => .error errParse
  | ⟨⟨tokWord, field⟩ :: rest, s⟩ =>
      let lf := lowerText field
      if isKnownProtocol lf then
        .ok (fun c => (c.protos.lookup lf).getD false, ⟨⟨rest, true⟩, by simp⟩)
      -- an unknown word is a leaf that matches nothing and makes no filter
      else .ok (fun _ => false, ⟨⟨rest, s⟩, by simp⟩)
  | _ => .error errParse
termination_by (p.toks.length, 0)

end

/-! ## The search -/

structure SearchResult where
  id : String
  label : String
  ips : List String
  packetCount : Nat
  byteCount : Nat
  subnet24 : String := ""
  subnet16 : String := ""

/-- One name in the protocol set of one node. -/
def addProto (protos : KeyedMap String (KeyedMap Bytes Bool)) (p : Bytes) (nodeID : String) :
    KeyedMap String (KeyedMap Bytes Bool) :=
  protos.insert nodeID (((protos.lookup nodeID).getD ∅).insert p true)

/-- The protocol names on the edges of each node. -/
def nodeProtos (go : Runtime) (m : Manager) : KeyedMap String (KeyedMap Bytes Bool) :=
  (go.rangeOf m.edges).foldl (fun protos e =>
    let p := lowerText (utf8 e.2.protocol.name)
    if p = [] then protos else addProto (addProto protos p e.2.fromID) p e.2.toID) ∅

def searchResult (id : String) (n : Node) : SearchResult :=
  let s := primarySubnet24 n
  { id := id
    label := n.hostname
    ips := n.ips
    packetCount := n.packetCount
    byteCount := n.byteCount
    subnet24 := if s = "" then "" else s ++ ".0/24"
    subnet16 :=
      match beforeLastDot s with
      | some before => if before = "" then "" else before ++ ".0.0/16"
      | none => "" }

/-- The busier result first, then the smaller id. -/
def busierResult (a b : SearchResult) : Bool :=
  if a.packetCount ≠ b.packetCount then b.packetCount < a.packetCount else a.id < b.id

/-- The context a node is asked in. -/
def nodeCtx (go : Runtime) (m : Manager) (id : String) (n : Node) : NodeCtx :=
  { id := id, node := n, protos := ((nodeProtos go m).lookup id).getD ∅ }

/-- The nodes a predicate holds of. -/
def matching (go : Runtime) (m : Manager) (pred : Predicate) : List SearchResult :=
  ((go.rangeOf m.nodes).filter fun e => pred (nodeCtx go m e.1 e.2)).map
    fun e => searchResult e.1 e.2

/-- The filter some tokens make up, unless they are only words. -/
def parseFilter (toks : List Token) : Option Predicate :=
  match parseOr { toks := toks } with
  | .ok (pred, ⟨⟨[], true⟩, _⟩) => some pred
  | _ => none

/--
The nodes a query matches, busiest first, and whether it is a filter at all; `none`
when the call does not return.
-/
def searchFilter (go : Runtime) (m : Manager) (query : Bytes) (limit : Int) :
    Option (List SearchResult × Bool) :=
  match tokenizeFilter query with
  | none => none
  | some toks =>
      match parseFilter toks with
      | none => some ([], false)
      | some pred =>
          let limit := if limit ≤ 0 then 20 else limit.toNat
          some ((go.sortSlice busierResult (matching go m pred)).take limit, true)

end Etherchimp
