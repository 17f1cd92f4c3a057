import OpenChime.Wire.Messages.Posting

/-! Threads, activity, polls and summaries. -/

set_option autoImplicit false

namespace OpenChime.Wire

open Get MsgType

structure ThreadReply where
  (messageId channelId parentId authorId serverTime : UInt64)
  replyCount : UInt32
  participant : UInt8
  body : Slice
  nAttach : UInt16
  attach : List AttachEntry
  broadcastStored : UInt8

structure ThreadReply.Valid (m : ThreadReply) : Prop where
  participant : m.participant ≤ 1
  stored : m.broadcastStored ≤ 1
  counted : Counted maxAttach.toNat m.nAttach.toNat m.attach
  entries : ∀ a ∈ m.attach, a.Valid

variable (version : UInt16)

@[simp] def encodeThreadReply (m : ThreadReply) : Put :=
  checkBody m.body <| .frame version threadReply.code
    ([.u64 m.messageId, .u64 m.channelId, .u64 m.parentId, .u64 m.authorId, .u64 m.serverTime,
      .u32 m.replyCount, .u8 (flag m.participant), .u8 (flag m.broadcastStored), .lstr m.body] ++
      if m.nAttach ≠ 0 then
        let n := clamp maxAttach m.nAttach
        .u16 n :: (m.attach.take n.toNat).flatMap wAttachEntry
      else [])

@[simp] def decodeThreadReply : Get ThreadReply := do
  let messageId ← rU64
  let channelId ← rU64
  let parentId ← rU64
  let authorId ← rU64
  let serverTime ← rU64
  let replyCount ← rU32
  let participant ← rU8
  let broadcastStored ← rU8
  refuseIf (broadcastStored > 1)
  let body ← rLstr
  if ← more then
    let nAttach ← rU16
    refuseIf (nAttach > maxAttach)
    let attach ← loopOk rAttachEntry nAttach.toNat
    done { messageId, channelId, parentId, authorId, serverTime, replyCount, participant, body
           nAttach, attach, broadcastStored }
  else
    done { messageId, channelId, parentId, authorId, serverTime, replyCount, participant, body
           nAttach := 0, attach := [], broadcastStored }

theorem threadReply_readsBack (m : ThreadReply) (valid : m.Valid) :
    (encodeThreadReply version m).ReadsBack version threadReply.code decodeThreadReply m := by
  obtain ⟨participant, stored, counted, entries⟩ := valid
  by_cases absent : m.nAttach = 0
  · have none : m.attach = [] := List.eq_nil_of_length_eq_zero (by simp [counted.counted, absent])
    have zeroed : { m with nAttach := 0, attach := [] } = m := by
      cases m
      simp_all
    simp +contextual [participant, stored, absent, zeroed]
  · have reads : EachReads rAttachEntry wAttachEntry m.attach := fun a member =>
      reads_attachEntry (entries a member)
    simp +contextual [participant, stored, absent, counted.u16, reads]

structure ListThread where
  (channelId parentId : UInt64)

@[simp] def encodeListThread (m : ListThread) : Put :=
  .frame version listThread.code [.u64 m.channelId, .u64 m.parentId]

@[simp] def decodeListThread : Get ListThread := do
  done ⟨← rU64, ← rU64⟩

structure Thread where
  parentId : UInt64
  count : UInt32
  truncated : UInt8

@[simp] def encodeThread (m : Thread) : Put :=
  .frame version thread.code [.u64 m.parentId, .u32 m.count, .u8 m.truncated]

@[simp] def decodeThread : Get Thread := do
  done ⟨← rU64, ← rU32, ← rU8⟩

structure ThreadMeta where
  messageId : UInt64
  replyCount : UInt32
  lastReplyAt : UInt64

@[simp] def encodeThreadMeta (m : ThreadMeta) : Put :=
  .frame version threadMeta.code [.u64 m.messageId, .u32 m.replyCount, .u64 m.lastReplyAt]

@[simp] def decodeThreadMeta : Get ThreadMeta := do
  done ⟨← rU64, ← rU32, ← rU64⟩

/-- A frame with nothing in it is the original question, so an underflow is forgiven and the
default filter taken. -/
def rFilter (dflt : UInt8) : Get UInt8 := do
  let filter ← rU8
  let p ← get
  if p.underflow then
    set { p with underflow := false }
    accept dflt
  else accept filter

theorem reads_rFilter (dflt filter : UInt8) : Reads (rFilter dflt) [.u8 filter] filter := by
  intro _ rest
  rw [rFilter, on_rU8]
  rfl

def threadfAll : UInt8 := 0
def actfInvolved : UInt8 := 0

structure ListThreads where
  filter : UInt8

def encodeListThreads (m : ListThreads) : Put := .frame version listThreads.code [.u8 m.filter]

def decodeListThreads : Get ListThreads := do
  accept ⟨← rFilter threadfAll⟩

def encodeListActivity (filter : UInt8) : Put := .frame version listActivity.code [.u8 filter]

def decodeListActivity : Get UInt8 := rFilter actfInvolved

theorem listActivity_readsBack (filter : UInt8) :
    (encodeListActivity version filter).ReadsBack version listActivity.code decodeListActivity filter :=
  readsBack_frame.mpr fun fits => reads_rFilter actfInvolved filter fits []

structure ThreadSummary where
  (rootId channelId rootAuthor rootAt lastReplyAt : UInt64)
  (replyCount unread : UInt32)
  following : UInt8
  preview : Slice
  action : UInt8

@[simp] def encodeThreadSummary (m : ThreadSummary) : Put :=
  .frame version threadSummary.code
    [.u64 m.rootId, .u64 m.channelId, .u64 m.rootAuthor, .u64 m.rootAt, .u64 m.lastReplyAt,
     .u32 m.replyCount, .u32 m.unread, .u8 m.following, .str m.preview, .u8 m.action]

@[simp] def decodeThreadSummary : Get ThreadSummary := do
  done { rootId := ← rU64, channelId := ← rU64, rootAuthor := ← rU64, rootAt := ← rU64, lastReplyAt := ← rU64,
         replyCount := ← rU32, unread := ← rU32, following := ← rU8, preview := ← rStr, action := ← rU8 }

structure Threads where
  count : UInt32

@[simp] def encodeThreads (m : Threads) : Put := .frame version threads.code [.u32 m.count]

@[simp] def decodeThreads : Get Threads := do
  done ⟨← rU32⟩

structure SetThreadFollow where
  (rootId channelId : UInt64)
  on : UInt8

@[simp] def encodeSetThreadFollow (m : SetThreadFollow) : Put :=
  .frame version setThreadFollow.code [.u64 m.rootId, .u64 m.channelId, .u8 m.on]

@[simp] def decodeSetThreadFollow : Get SetThreadFollow := do
  done ⟨← rU64, ← rU64, ← rU8⟩

structure MarkThreadRead where
  (rootId upTo : UInt64)

@[simp] def encodeMarkThreadRead (m : MarkThreadRead) : Put :=
  .frame version markThreadRead.code [.u64 m.rootId, .u64 m.upTo]

@[simp] def decodeMarkThreadRead : Get MarkThreadRead := do
  done ⟨← rU64, ← rU64⟩

structure ActivityEntry where
  kind : UInt8
  (messageId channelId actorId «at» : UInt64)
  text : Slice
  action : UInt8

@[simp] def encodeActivityEntry (m : ActivityEntry) : Put :=
  .frame version activityEntry.code
    [.u8 m.kind, .u64 m.messageId, .u64 m.channelId, .u64 m.actorId, .u64 m.«at», .str m.text, .u8 m.action]

@[simp] def decodeActivityEntry : Get ActivityEntry := do
  let kind ← rU8
  let messageId ← rU64
  let channelId ← rU64
  let actorId ← rU64
  let «at» ← rU64
  let text ← rStr
  let action ← rU8
  done { kind, messageId, channelId, actorId, «at», text, action }

structure Activity where
  count : UInt32
  seenAt : UInt64

@[simp] def encodeActivity (m : Activity) : Put :=
  .frame version activity.code [.u32 m.count, .u64 m.seenAt]

@[simp] def decodeActivity : Get Activity := do
  done ⟨← rU32, ← rU64⟩

def pollMaxOptions : UInt8 := 10

structure PostPoll where
  channelId : UInt64
  idem : Raw idemSize
  parentId : UInt64
  question : Slice
  flags : UInt8
  closeAtMs : UInt64
  nOptions : UInt8
  options : List Slice

def PostPoll.Valid (m : PostPoll) : Prop := Counted pollMaxOptions.toNat m.nOptions.toNat m.options

@[simp] def encodePostPoll (m : PostPoll) : Put :=
  let n := clamp pollMaxOptions m.nOptions
  checkBody m.question <| .frame version postPoll.code
    ([.u64 m.channelId, .raw m.idem, .u64 m.parentId, .lstr m.question, .u8 m.flags,
      .u64 m.closeAtMs, .u8 n] ++ (m.options.take n.toNat).flatMap fun option => [.str option])

@[simp] def decodePostPoll : Get PostPoll := do
  let channelId ← rU64
  let idem ← rRaw idemSize
  let parentId ← rU64
  let question ← rLstr
  let flags ← rU8
  let closeAtMs ← rU64
  let nOptions ← rU8
  refuseIf (nOptions > pollMaxOptions)
  let options ← loop rStr nOptions.toNat
  done { channelId, idem, parentId, question, flags, closeAtMs, nOptions, options }

structure Vote where
  (channelId messageId : UInt64)
  count : UInt8
  picks : List UInt8

def Vote.Valid (m : Vote) : Prop := Counted pollMaxOptions.toNat m.count.toNat m.picks

@[simp] def encodeVote (m : Vote) : Put :=
  let n := clamp pollMaxOptions m.count
  .frame version vote.code ([.u64 m.channelId, .u64 m.messageId, .u8 n] ++
      (m.picks.take n.toNat).flatMap fun pick => [.u8 pick])

@[simp] def decodeVote : Get Vote := do
  let channelId ← rU64
  let messageId ← rU64
  let count ← rU8
  refuseIf (count > pollMaxOptions)
  let picks ← loop rU8 count.toNat
  done { channelId, messageId, count, picks }

structure PollOption where
  label : Slice
  count : UInt32

def PollOption.fields (o : PollOption) : List Field := [.str o.label, .u32 o.count]

def rPollOption : Get PollOption := do
  accept ⟨← rStr, ← rU32⟩

@[simp] theorem reads_pollOption (o : PollOption) : Reads rPollOption o.fields o := by
  simp +contextual [Reads, rPollOption, PollOption.fields]


structure PollMsg where
  (messageId channelId : UInt64)
  flags : UInt8
  closeAtMs : UInt64
  voters : UInt32
  mine : UInt16
  nOptions : UInt8
  options : List PollOption

def PollMsg.Valid (m : PollMsg) : Prop := Counted pollMaxOptions.toNat m.nOptions.toNat m.options

@[simp] def encodePoll (m : PollMsg) : Put :=
  let n := clamp pollMaxOptions m.nOptions
  .frame version poll.code ([.u64 m.messageId, .u64 m.channelId, .u8 m.flags, .u64 m.closeAtMs, .u32 m.voters,
      .u16 m.mine, .u8 n] ++ (m.options.take n.toNat).flatMap PollOption.fields)

@[simp] def decodePoll : Get PollMsg := do
  let messageId ← rU64
  let channelId ← rU64
  let flags ← rU8
  let closeAtMs ← rU64
  let voters ← rU32
  let mine ← rU16
  let nOptions ← rU8
  refuseIf (nOptions > pollMaxOptions)
  let options ← loop rPollOption nOptions.toNat
  done { messageId, channelId, flags, closeAtMs, voters, mine, nOptions, options }

structure EditPoll where
  (channelId messageId : UInt64)
  flags : UInt8
  closeAtMs : UInt64
  nOptions : UInt8
  options : List Slice

def EditPoll.Valid (m : EditPoll) : Prop := Counted pollMaxOptions.toNat m.nOptions.toNat m.options

@[simp] def encodeEditPoll (m : EditPoll) : Put :=
  let n := clamp pollMaxOptions m.nOptions
  .frame version editPoll.code ([.u64 m.channelId, .u64 m.messageId, .u8 m.flags, .u64 m.closeAtMs, .u8 n] ++
      (m.options.take n.toNat).flatMap fun option => [.str option])

@[simp] def decodeEditPoll : Get EditPoll := do
  let channelId ← rU64
  let messageId ← rU64
  let flags ← rU8
  let closeAtMs ← rU64
  let nOptions ← rU8
  refuseIf (nOptions > pollMaxOptions)
  let options ← loop rStr nOptions.toNat
  done { channelId, messageId, flags, closeAtMs, nOptions, options }

structure ListPollVoters where
  (channelId messageId : UInt64)

@[simp] def encodeListPollVoters (m : ListPollVoters) : Put :=
  .frame version listPollVoters.code [.u64 m.channelId, .u64 m.messageId]

@[simp] def decodeListPollVoters : Get ListPollVoters := do
  done ⟨← rU64, ← rU64⟩

structure PollVoter where
  option : UInt8
  userId : UInt64

def PollVoter.fields (v : PollVoter) : List Field := [.u8 v.option, .u64 v.userId]

def rPollVoter : Get PollVoter := do
  accept ⟨← rU8, ← rU64⟩

@[simp] theorem reads_pollVoter (v : PollVoter) : Reads rPollVoter v.fields v := by
  simp +contextual [Reads, rPollVoter, PollVoter.fields]

structure PollVoters where
  messageId : UInt64
  count : UInt16
  voters : List PollVoter

def PollVoters.Valid (cap : UInt16) (m : PollVoters) : Prop := Counted cap.toNat m.count.toNat m.voters

@[simp] def encodePollVoters (m : PollVoters) : Put :=
  .frame version pollVoters.code
    (.u64 m.messageId :: .u16 m.count :: (m.voters.take m.count.toNat).flatMap PollVoter.fields)

@[simp] def decodePollVoters (cap : UInt16) : Get PollVoters := do
  let messageId ← rU64
  let count ← rU16
  let voters ← loopOk rPollVoter count.toNat
  done { messageId, count, voters := voters.take cap.toNat }

structure Summarize where
  reqId : UInt32
  channelId : UInt64
  scope : UInt8
  (startMs endMs : UInt64)

@[simp] def encodeSummarize (m : Summarize) : Put :=
  .frame version summarize.code [.u32 m.reqId, .u64 m.channelId, .u8 m.scope, .u64 m.startMs, .u64 m.endMs]

@[simp] def decodeSummarize : Get Summarize := do
  done ⟨← rU32, ← rU64, ← rU8, ← rU64, ← rU64⟩

structure Summary where
  reqId : UInt32
  status : UInt8
  (summaryId channelId startMs endMs : UInt64)
  (version body : Slice)

@[simp] def encodeSummary (m : Summary) : Put :=
  .frame version summary.code
    [.u32 m.reqId, .u8 m.status, .u64 m.summaryId, .u64 m.channelId, .u64 m.startMs, .u64 m.endMs,
     .str m.version, .lstr m.body]

@[simp] def decodeSummary : Get Summary := do
  done { reqId := ← rU32, status := ← rU8, summaryId := ← rU64, channelId := ← rU64, startMs := ← rU64, endMs := ← rU64,
         version := ← rStr, body := ← rLstr }

structure SummaryQueued where
  reqId : UInt32
  position : UInt16

@[simp] def encodeSummaryQueued (m : SummaryQueued) : Put :=
  .frame version summaryQueued.code [.u32 m.reqId, .u16 m.position]

@[simp] def decodeSummaryQueued : Get SummaryQueued := do
  done ⟨← rU32, ← rU16⟩

structure SummaryReq where
  reqId : UInt32

@[simp] def encodeSummaryReq (version type : UInt16) (m : SummaryReq) : Put := .frame version type [.u32 m.reqId]

@[simp] def decodeSummaryReq : Get SummaryReq := do
  done ⟨← rU32⟩

structure SummaryReady where
  (noticeId channelId : UInt64)
  (scope status : UInt8)
  (startMs endMs madeAtMs : UInt64)

@[simp] def encodeSummaryReady (m : SummaryReady) : Put :=
  .frame version summaryReady.code
    [.u64 m.noticeId, .u64 m.channelId, .u8 m.scope, .u8 m.status, .u64 m.startMs, .u64 m.endMs, .u64 m.madeAtMs]

@[simp] def decodeSummaryReady : Get SummaryReady := do
  done ⟨← rU64, ← rU64, ← rU8, ← rU8, ← rU64, ← rU64, ← rU64⟩

structure SummaryOpen where
  reqId : UInt32
  noticeId : UInt64

@[simp] def encodeSummaryOpen (m : SummaryOpen) : Put :=
  .frame version summaryOpen.code [.u32 m.reqId, .u64 m.noticeId]

@[simp] def decodeSummaryOpen : Get SummaryOpen := do
  done ⟨← rU32, ← rU64⟩

structure SummaryDismiss where
  noticeId : UInt64

@[simp] def encodeSummaryDismiss (m : SummaryDismiss) : Put :=
  .frame version summaryDismiss.code [.u64 m.noticeId]

@[simp] def decodeSummaryDismiss : Get SummaryDismiss := do
  done ⟨← rU64⟩

def threadCodecs : List LawfulCodec := [
  .checked .threadReply ThreadReply.Valid encodeThreadReply decodeThreadReply threadReply_readsBack,
  .plain .listThread encodeListThread decodeListThread,
  .plain .thread encodeThread decodeThread,
  .plain .threadMeta encodeThreadMeta decodeThreadMeta,
  .plain .listThreads encodeListThreads decodeListThreads fun _ m => by
    have ran := (reads_rFilter threadfAll m.filter).on_append [] [] (by simp)
      fun filter => accept { filter : ListThreads }
    simpa [encodeListThreads, decodeListThreads] using ran,
  .plain .listActivity encodeListActivity decodeListActivity listActivity_readsBack,
  .plain .threadSummary encodeThreadSummary decodeThreadSummary,
  .plain .threads encodeThreads decodeThreads,
  .plain .setThreadFollow encodeSetThreadFollow decodeSetThreadFollow,
  .plain .markThreadRead encodeMarkThreadRead decodeMarkThreadRead,
  .plain .activityEntry encodeActivityEntry decodeActivityEntry,
  .plain .activity encodeActivity decodeActivity,
  .checked .postPoll PostPoll.Valid encodePostPoll decodePostPoll fun _ _ valid => by
    simp +contextual [valid.u8],
  .checked .vote Vote.Valid encodeVote decodeVote fun _ _ valid => by
    simp +contextual [valid.u8],
  .checked .poll PollMsg.Valid encodePoll decodePoll fun _ _ valid => by
    simp +contextual [valid.u8],
  .checked .editPoll EditPoll.Valid encodeEditPoll decodeEditPoll fun _ _ valid => by
    simp +contextual [valid.u8],
  .plain .listPollVoters encodeListPollVoters decodeListPollVoters,
  .capped .pollVoters PollVoters.Valid encodePollVoters decodePollVoters fun _ _ _ valid => by
    simp +contextual [valid.whole],
  .plain .summarize encodeSummarize decodeSummarize,
  .plain .summary encodeSummary decodeSummary,
  .plain .summaryQueued encodeSummaryQueued decodeSummaryQueued,
  .typed (fun _ => True) encodeSummaryReq decodeSummaryReq (by simp +contextual),
  .plain .summaryReady encodeSummaryReady decodeSummaryReady,
  .plain .summaryOpen encodeSummaryOpen decodeSummaryOpen,
  .plain .summaryDismiss encodeSummaryDismiss decodeSummaryDismiss]

end OpenChime.Wire
