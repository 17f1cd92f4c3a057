import OpenChime.Wire.Messages.Session
import OpenChime.Wire.Messages.Threads
import OpenChime.Wire.Messages.Channels
import OpenChime.Wire.Messages.People
import OpenChime.Wire.Messages.Preferences
import OpenChime.Wire.Messages.Calls
import OpenChime.Wire.Messages.Transfer
import OpenChime.Wire.Messages.Records

/-! Every message type of the wire that has both an encoder and a decoder: what the
encoder put into a buffer parses as one frame, and the decoder gives the message back. -/

set_option autoImplicit false

namespace OpenChime.Wire

def lawfulCodecs : List LawfulCodec :=
  sessionCodecs ++ postingCodecs ++ threadCodecs ++ channelCodecs ++ peopleCodecs ++
    preferenceCodecs ++ callCodecs ++ transferCodecs ++ recordCodecs

def codecs : List Codec := lawfulCodecs.map LawfulCodec.toCodec

/-- A frame that was appended parses, and its payload decodes to the message it was made from. -/
theorem readsBack_run {M : Type} {version msgType : UInt16} {decode : Get M} {m : M} {call : Put}
    (reads : call.ReadsBack version msgType decode m) {w after : WBuf} (ran : call.run w = (.ok (), after)) :
    ∃ frame header payload rest, after.data = w.data ++ frame ∧
      parseFrame frame = .ok (header, payload) ∧ header.version = version ∧
      header.msgType = msgType ∧ decode payload = .ok (m, rest) := by
  cases call with
  | refuse error => cases ran
  | frame v t fields =>
    obtain ⟨rfl, rfl, decoded⟩ := reads
    obtain ⟨-, fits, small, written, -⟩ := frame_run_ok ran
    have parsed := parseFrame_frameBytes small []
    have decoded := decoded fits
    rw [List.append_nil] at parsed
    rw [Get.on, List.append_nil] at decoded
    exact ⟨_, _, _, _, written, parsed, rfl, rfl, decoded⟩

theorem codec_round_trip {c : Codec} (known : c ∈ codecs) (args : c.Args) (version : UInt16)
    (m : c.Msg) (valid : c.Valid args m) (w after : WBuf)
    (encoded : (c.encode args version m).run w = (.ok (), after)) :
    ∃ frame header payload rest, after.data = w.data ++ frame ∧
      parseFrame frame = .ok (header, payload) ∧ header.version = c.version version ∧
      header.msgType = c.msgType args ∧ c.decode args payload = .ok (m, rest) := by
  obtain ⟨lawful, -, rfl⟩ := List.mem_map.mp known
  exact readsBack_run (lawful.readsBack args version m valid) encoded

private theorem broadcast_known : LawfulCodec.toCodec (.checked .broadcast Broadcast.Valid
    encodeBroadcast decodeBroadcast fun version => broadcastAs_readsBack version _) ∈ codecs := by
  refine List.mem_map_of_mem ?_
  simp [lawfulCodecs, postingCodecs]

private def namedBroadcast : Broadcast where
  messageId := 7
  channelId := 3
  authorId := 2
  serverTime := 1
  kind := 0
  body := [104, 105]
  nAttach := 1
  attach := [⟨9, [97], [98], 4, 0, mediaNone, 0, 0, 0, 0⟩]
  authorName := [66]
  broadcastStored := 1

theorem codec_round_trip_broadcast : ∃ frame header payload rest,
      ((encodeBroadcast 33 namedBroadcast).run (.init 200)).2.data = [] ++ frame ∧
      parseFrame frame = .ok (header, payload) ∧ header.version = 33 ∧
      header.msgType = MsgType.broadcast.code ∧
      decodeBroadcast payload = .ok (namedBroadcast, rest) :=
  codec_round_trip broadcast_known () 33 namedBroadcast
    ⟨by decide, by decide, ⟨by decide, rfl⟩, by simp [AttachEntry.Valid, namedBroadcast]⟩
    (.init 200) _ rfl

end OpenChime.Wire
