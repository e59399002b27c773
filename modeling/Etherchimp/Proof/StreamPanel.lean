import Etherchimp.Proof.HexDump
import Etherchimp.Proof.StreamContent
import Etherchimp.Stream.Detail

/-!
# What the stream panel shows

The panel never sees the packets, only what the manager kept of them and what is left of
that in the texts. Here the texts are read back: the base64 fields say all that was kept,
the dumps the first bytes of it, each as a function of the packets filed under the id since
the stream was created.
-/

namespace Etherchimp

/-- The texts of a detail, read back, against the packets filed since the creation. -/
structure PanelOf (s : Stream) (filed : List Filing) (detail : StreamDetail) : Prop where
  packetCount : detail.packetCount = filed.length
  byteCount : detail.byteCount = (filed.map fun f => f.2.length).sum
  packets : detail.packets = (filed.take 500).map fun f => s.record f.1 f.2
  requestPayload : Base64.decode detail.requestPayload.toList
    = (s.payloadOf .request filed).take maxStreamPayload
  responsePayload : Base64.decode detail.responsePayload.toList
    = (s.payloadOf .response filed).take maxStreamPayload
  requestHex : readHexDump detail.requestHex = (s.payloadOf .request filed).take maxPanelBytes
  responseHex : readHexDump detail.responseHex = (s.payloadOf .response filed).take maxPanelBytes
  /-- Where the panel does not take the protocol for text, its content is the two dumps. -/
  decodedContent : detail.protocol = .http ∨ detail.protocol = .smtp ∨
    readHexDump detail.decodedContent
      = (s.payloadOf .request filed).take maxPanelBytes
        ++ (s.payloadOf .response filed).take maxPanelBytes

theorem base64_text (data : List UInt8) :
    Base64.decode (String.ofList (Base64.encode data)).toList = data := by
  rw [String.toList_ofList, Base64.decode_encode]

/-- The panel's cut is within what was kept. -/
theorem take_kept (data : List UInt8) :
    (data.take maxStreamPayload).take maxPanelBytes = data.take maxPanelBytes := by
  rw [List.take_take]
  rfl

/-- The dump field of one side; the field of an empty side is left out. -/
theorem read_hexField (data : List UInt8) :
    readHexDump (if data ≠ [] then hexDumpText data maxPanelBytes else "")
      = data.take maxPanelBytes := by
  split
  next => rw [read_hexDumpText, take_displayed data (by decide)]
  next hempty =>
    rw [not_not.mp hempty, List.take_nil]
    rfl

/-- One side of the content. -/
theorem readsAs_panelDump (data : List UInt8) :
    ReadsAs (panelDump data) (data.take maxPanelBytes) := by
  unfold panelDump
  split
  next => exact readsAs_dump _
  next hempty =>
    rw [not_not.mp hempty, List.take_nil]
    exact readsAs_note "(empty)".toList rfl rfl (by decide)

/-- The content of a stream that is not taken for text. -/
theorem read_decodeStreamContent (s : Stream) : s.protocol = .http ∨ s.protocol = .smtp ∨
    readHexDump (decodeStreamContent s)
      = s.requestData.take maxPanelBytes ++ s.responseData.take maxPanelBytes := by
  have hrequest : ReadsAs "=== REQUEST DATA ===\n" [] :=
    readsAs_note "=== REQUEST DATA ===".toList rfl rfl (by decide)
  have hblank : ReadsAs "\n" [] := readsAs_note [] rfl rfl (by decide)
  have hresponse : ReadsAs ("\n" ++ "=== RESPONSE DATA ===\n") [] :=
    hblank.append (readsAs_note "=== RESPONSE DATA ===".toList rfl rfl (by decide))
  have hdumps := (((hrequest.append (readsAs_panelDump s.requestData)).append hresponse).append
    (readsAs_panelDump s.responseData)).read
  rw [List.nil_append, List.append_nil] at hdumps
  unfold decodeStreamContent
  split
  next h => exact .inl h
  next h => exact .inr (.inl h)
  next => exact .inr (.inr hdumps)

/-- The detail of a stream shows what the stream holds. -/
theorem Stream.Holds.panel {s : Stream} {filed : List Filing} (h : s.Holds filed) :
    PanelOf s filed s.detail where
  packetCount := h.packetCount
  byteCount := h.byteCount
  packets := h.packets
  requestPayload := (base64_text s.requestData).trans h.requestData
  responsePayload := (base64_text s.responseData).trans h.responseData
  requestHex := by
    rw [← take_kept, ← h.requestData]
    exact read_hexField s.requestData
  responseHex := by
    rw [← take_kept, ← h.responseData]
    exact read_hexField s.responseData
  decodedContent := by
    rw [← take_kept (s.payloadOf .request filed), ← h.requestData,
      ← take_kept (s.payloadOf .response filed), ← h.responseData]
    exact read_decodeStreamContent s

/--
After any calls, whatever id the panel asks for: it is told that there is no such stream
exactly when none is live, and otherwise gets the texts of the stream that was created by
one of the calls and has been live since.
-/
theorem streamPanel_run (maxStreams : Int) (ops : List StreamOp) (id : String) :
    match (StreamManager.run maxStreams ops).getStream id with
    | .error e =>
        e = "stream not found: " ++ id ∧ id ∉ (StreamManager.run maxStreams ops).streams
    | .ok detail => ∃ s before now creator after,
        (StreamManager.run maxStreams ops).streams.lookup id = some s
        ∧ CreatedAt maxStreams ops id before now creator after ∧ s.OpenedBy creator
        ∧ PanelOf s (filedUnder id (.addPacket now creator :: after)) detail := by
  unfold StreamManager.getStream
  cases hs : (StreamManager.run maxStreams ops).streams.lookup id with
  | none => exact ⟨rfl, AList.lookup_eq_none.mp hs⟩
  | some s =>
    obtain ⟨before, now, creator, after, hcreated, hopened, hholds⟩ :=
      accounted_run maxStreams ops id s hs
    exact ⟨s, before, now, creator, after, rfl, hcreated, hopened, hholds.panel⟩

end Etherchimp
