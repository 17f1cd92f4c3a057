import OpenChime.Wire.Codec

/-! Attachment transfer, read-aloud and voice input. -/

set_option autoImplicit false

namespace OpenChime.Wire

open Get MsgType

structure UploadBegin where
  channelId : UInt64
  idem : Raw idemSize
  (filename mime : Slice)
  totalSize : UInt64

variable (version : UInt16)

@[simp] def encodeUploadBegin (m : UploadBegin) : Put :=
  .frame version uploadBegin.code [.u64 m.channelId, .raw m.idem, .str m.filename, .str m.mime, .u64 m.totalSize]

@[simp] def decodeUploadBegin : Get UploadBegin := do
  done ⟨← rU64, ← rRaw idemSize, ← rStr, ← rStr, ← rU64⟩

structure UploadReady where
  attachmentId : UInt64
  (chunkSize windowBytes : UInt32)

@[simp] def encodeUploadReady (m : UploadReady) : Put :=
  .frame version uploadReady.code [.u64 m.attachmentId, .u32 m.chunkSize, .u32 m.windowBytes]

@[simp] def decodeUploadReady : Get UploadReady := do
  done ⟨← rU64, ← rU32, ← rU32⟩

structure UploadChunk where
  attachmentId : UInt64
  seq : UInt32
  data : Slice

@[simp] def encodeUploadChunk (m : UploadChunk) : Put :=
  .frame version uploadChunk.code [.u64 m.attachmentId, .u32 m.seq, .bytes m.data]

@[simp] def decodeUploadChunk : Get UploadChunk := do
  done ⟨← rU64, ← rU32, ← rBytes⟩

structure UploadAck where
  attachmentId : UInt64
  ackedThrough : UInt32

@[simp] def encodeUploadAck (m : UploadAck) : Put :=
  .frame version uploadAck.code [.u64 m.attachmentId, .u32 m.ackedThrough]

@[simp] def decodeUploadAck : Get UploadAck := do
  done ⟨← rU64, ← rU32⟩

structure UploadEnd where
  attachmentId : UInt64

@[simp] def encodeUploadEnd (m : UploadEnd) : Put := .frame version uploadEnd.code [.u64 m.attachmentId]

@[simp] def decodeUploadEnd : Get UploadEnd := do
  done ⟨← rU64⟩

structure UploadOk where
  (attachmentId size : UInt64)
  sha256 : Slice

@[simp] def encodeUploadOk (m : UploadOk) : Put :=
  .frame version uploadOk.code [.u64 m.attachmentId, .u64 m.size, .bytes m.sha256]

@[simp] def decodeUploadOk : Get UploadOk := do
  done ⟨← rU64, ← rU64, ← rBytes⟩

structure DownloadBegin where
  attachmentId : UInt64

@[simp] def encodeDownloadBegin (m : DownloadBegin) : Put :=
  .frame version downloadBegin.code [.u64 m.attachmentId]

@[simp] def decodeDownloadBegin : Get DownloadBegin := do
  done ⟨← rU64⟩

structure DownloadInfo where
  attachmentId : UInt64
  (filename mime : Slice)
  totalSize : UInt64
  sha256 : Slice

@[simp] def encodeDownloadInfo (m : DownloadInfo) : Put :=
  .frame version downloadInfo.code
    [.u64 m.attachmentId, .str m.filename, .str m.mime, .u64 m.totalSize, .bytes m.sha256]

@[simp] def decodeDownloadInfo : Get DownloadInfo := do
  done ⟨← rU64, ← rStr, ← rStr, ← rU64, ← rBytes⟩

structure DownloadChunk where
  attachmentId : UInt64
  seq : UInt32
  data : Slice

@[simp] def encodeDownloadChunk (m : DownloadChunk) : Put :=
  .frame version downloadChunk.code [.u64 m.attachmentId, .u32 m.seq, .bytes m.data]

@[simp] def decodeDownloadChunk : Get DownloadChunk := do
  done ⟨← rU64, ← rU32, ← rBytes⟩

structure DownloadEnd where
  attachmentId : UInt64

@[simp] def encodeDownloadEnd (m : DownloadEnd) : Put :=
  .frame version downloadEnd.code [.u64 m.attachmentId]

@[simp] def decodeDownloadEnd : Get DownloadEnd := do
  done ⟨← rU64⟩

structure TransferCancel where
  attachmentId : UInt64

@[simp] def encodeTransferCancel (m : TransferCancel) : Put :=
  .frame version transferCancel.code [.u64 m.attachmentId]

@[simp] def decodeTransferCancel : Get TransferCancel := do
  done ⟨← rU64⟩

def ttsVoiceMax : UInt8 := 16

structure TtsVoice where
  (id label lang : Slice)

def TtsVoice.fields (v : TtsVoice) : List Field := [.str v.id, .str v.label, .str v.lang]

def rTtsVoice : Get TtsVoice := do
  accept ⟨← rStr, ← rStr, ← rStr⟩

@[simp] theorem reads_ttsVoice (v : TtsVoice) : Reads rTtsVoice v.fields v := by
  simp +contextual [Reads, rTtsVoice, TtsVoice.fields]


structure TtsInfo where
  modelVersion : Slice
  count : UInt8
  voices : List TtsVoice
  preview : Slice

def TtsInfo.Valid (m : TtsInfo) : Prop := Counted ttsVoiceMax.toNat m.count.toNat m.voices

@[simp] def encodeTtsInfo (m : TtsInfo) : Put :=
  let n := clamp ttsVoiceMax m.count
  .frame version ttsInfo.code (.str m.modelVersion :: .u8 n ::
      (m.voices.take n.toNat).flatMap TtsVoice.fields ++ [.str m.preview])

@[simp] def decodeTtsInfo : Get TtsInfo := do
  let modelVersion ← rStr
  let count ← rU8
  refuseIf (count > ttsVoiceMax)
  let voices ← loop rTtsVoice count.toNat
  let preview ← rStr
  done { modelVersion, count, voices, preview }

structure VoicePreviewGet where
  voiceId : Slice

@[simp] def encodeVoicePreviewGet (m : VoicePreviewGet) : Put :=
  .frame version voicePreviewGet.code [.str m.voiceId]

@[simp] def decodeVoicePreviewGet : Get VoicePreviewGet := do
  done ⟨← rStr⟩

structure AudioGet where
  messageId : UInt64

@[simp] def encodeAudioGet (m : AudioGet) : Put := .frame version audioGet.code [.u64 m.messageId]

@[simp] def decodeAudioGet : Get AudioGet := do
  done ⟨← rU64⟩

structure AudioInfo where
  messageId : UInt64
  durationMs : UInt32
  totalSize : UInt64

@[simp] def encodeAudioInfo (m : AudioInfo) : Put :=
  .frame version audioInfo.code [.u64 m.messageId, .u32 m.durationMs, .u64 m.totalSize]

@[simp] def decodeAudioInfo : Get AudioInfo := do
  done ⟨← rU64, ← rU32, ← rU64⟩

structure AudioChunk where
  messageId : UInt64
  seq : UInt32
  data : Slice

@[simp] def encodeAudioChunk (m : AudioChunk) : Put :=
  .frame version audioChunk.code [.u64 m.messageId, .u32 m.seq, .bytes m.data]

@[simp] def decodeAudioChunk : Get AudioChunk := do
  done ⟨← rU64, ← rU32, ← rBytes⟩

structure AudioEnd where
  messageId : UInt64

@[simp] def encodeAudioEnd (m : AudioEnd) : Put := .frame version audioEnd.code [.u64 m.messageId]

@[simp] def decodeAudioEnd : Get AudioEnd := do
  done ⟨← rU64⟩

structure SttInfo where
  (modelVersion lang : Slice)
  maxSegmentMs : UInt32

@[simp] def encodeSttInfo (m : SttInfo) : Put :=
  .frame version sttInfo.code [.str m.modelVersion, .str m.lang, .u32 m.maxSegmentMs]

@[simp] def decodeSttInfo : Get SttInfo := do
  done ⟨← rStr, ← rStr, ← rU32⟩

structure SttBegin where
  segmentId : UInt32
  mode : UInt8
  (channelId threadRoot : UInt64)
  idem : Raw idemSize
  sampleCount : UInt32

@[simp] def encodeSttBegin (m : SttBegin) : Put :=
  .frame version sttBegin.code
    [.u32 m.segmentId, .u8 m.mode, .u64 m.channelId, .u64 m.threadRoot, .raw m.idem, .u32 m.sampleCount]

@[simp] def decodeSttBegin : Get SttBegin := do
  done ⟨← rU32, ← rU8, ← rU64, ← rU64, ← rRaw idemSize, ← rU32⟩

structure SttChunk where
  (segmentId seq : UInt32)
  data : Slice

@[simp] def encodeSttChunk (m : SttChunk) : Put :=
  .frame version sttChunk.code [.u32 m.segmentId, .u32 m.seq, .bytes m.data]

@[simp] def decodeSttChunk : Get SttChunk := do
  done ⟨← rU32, ← rU32, ← rBytes⟩

structure SttEnd where
  segmentId : UInt32

@[simp] def encodeSttEnd (m : SttEnd) : Put := .frame version sttEnd.code [.u32 m.segmentId]

@[simp] def decodeSttEnd : Get SttEnd := do
  done ⟨← rU32⟩

structure SttText where
  segmentId : UInt32
  messageId : UInt64
  text : Slice

@[simp] def encodeSttText (m : SttText) : Put :=
  .frame version sttText.code [.u32 m.segmentId, .u64 m.messageId, .str m.text]

@[simp] def decodeSttText : Get SttText := do
  done ⟨← rU32, ← rU64, ← rStr⟩

def transferCodecs : List LawfulCodec := [ .plain .uploadBegin encodeUploadBegin decodeUploadBegin,
  .plain .uploadReady encodeUploadReady decodeUploadReady,
  .plain .uploadChunk encodeUploadChunk decodeUploadChunk,
  .plain .uploadAck encodeUploadAck decodeUploadAck,
  .plain .uploadEnd encodeUploadEnd decodeUploadEnd,
  .plain .uploadOk encodeUploadOk decodeUploadOk,
  .plain .downloadBegin encodeDownloadBegin decodeDownloadBegin,
  .plain .downloadInfo encodeDownloadInfo decodeDownloadInfo,
  .plain .downloadChunk encodeDownloadChunk decodeDownloadChunk,
  .plain .downloadEnd encodeDownloadEnd decodeDownloadEnd,
  .plain .transferCancel encodeTransferCancel decodeTransferCancel,
  .checked .ttsInfo TtsInfo.Valid encodeTtsInfo decodeTtsInfo fun _ _ valid => by
    simp +contextual [valid.u8],
  .plain .voicePreviewGet encodeVoicePreviewGet decodeVoicePreviewGet,
  .plain .audioGet encodeAudioGet decodeAudioGet,
  .plain .audioInfo encodeAudioInfo decodeAudioInfo,
  .plain .audioChunk encodeAudioChunk decodeAudioChunk,
  .plain .audioEnd encodeAudioEnd decodeAudioEnd,
  .plain .sttInfo encodeSttInfo decodeSttInfo,
  .plain .sttBegin encodeSttBegin decodeSttBegin,
  .plain .sttChunk encodeSttChunk decodeSttChunk,
  .plain .sttEnd encodeSttEnd decodeSttEnd,
  .plain .sttText encodeSttText decodeSttText]

end OpenChime.Wire
