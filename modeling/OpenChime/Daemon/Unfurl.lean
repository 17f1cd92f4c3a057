import Mathlib.Data.List.DropRight
import OpenChime.Shared.Text

/-! The link-unfurl fetcher: it dials whatever a user pasted into a message, so every address a
name resolves to is judged before any is dialled, and again after every redirect. The resolver,
the network and the servers are the environment, asked anew on each hop. -/

set_option autoImplicit false

namespace OpenChime.Daemon

open Shared Option

def ufMaxUrl : Nat := 2048
def ufMaxBody : Nat := 128 * 1024
def ufMaxRedirects : Nat := 3

/-- A socket address; the IPv4 one in host order, a family that is neither as `other`. -/
inductive SockAddr where
  | inet (a : UInt32)
  | inet6 (b : Vector UInt8 16)
  | other
  deriving DecidableEq

def v4Public (a : UInt32) : Bool :=
  let o1 := (a >>> 24) &&& 0xff
  let o2 := (a >>> 16) &&& 0xff
  let o3 := (a >>> 8) &&& 0xff
  if o1 = 0 ∨ o1 = 10 ∨ o1 = 127 then false
  else if o1 = 100 ∧ o2 &&& 0xc0 = 64 then false
  else if o1 = 169 ∧ o2 = 254 then false
  else if o1 = 172 ∧ o2 &&& 0xf0 = 16 then false
  else if o1 = 192 ∧ o2 = 168 then false
  else if o1 = 192 ∧ o2 = 0 ∧ (o3 = 0 ∨ o3 = 2) then false
  else if o1 = 198 ∧ (o2 = 18 ∨ o2 = 19) then false
  else if o1 = 198 ∧ o2 = 51 ∧ o3 = 100 then false
  else if o1 = 203 ∧ o2 = 0 ∧ o3 = 113 then false
  else if 224 ≤ o1 then false
  else true

def v4Of (b0 b1 b2 b3 : UInt8) : UInt32 :=
  b0.toUInt32 <<< 24 ||| b1.toUInt32 <<< 16 ||| b2.toUInt32 <<< 8 ||| b3.toUInt32

def v4At (b : Vector UInt8 16) (i : Fin 13) : UInt32 := v4Of b[i.val] b[i.val + 1] b[i.val + 2] b[i.val + 3]

def zeros (b : Vector UInt8 16) (start count : Nat) : Bool := (b.toList.drop start).take count == List.replicate count 0

def v6Public (b : Vector UInt8 16) : Bool :=
  if zeros b 0 10 ∧ b[10] = 0xff ∧ b[11] = 0xff then v4Public (v4At b 12)
  else if zeros b 0 12 then v4Public (v4At b 12)
  else if zeros b 0 8 ∧ b[8] = 0xff ∧ b[9] = 0xff ∧ b[10] = 0 ∧ b[11] = 0 then false
  else if b[0] = 0x20 ∧ b[1] = 0x02 then v4Public (v4At b 2)
  else if b[0] = 0x00 ∧ b[1] = 0x64 ∧ b[2] = 0xff ∧ b[3] = 0x9b then false
  else if b[0] = 0x01 ∧ b[1] = 0x00 ∧ zeros b 2 6 then false
  else if b[0] = 0x20 ∧ b[1] = 0x01 ∧ b[2] &&& 0xfe = 0x00 then false
  else if b[0] = 0x3f ∧ b[1] &&& 0xf0 = 0xf0 then false
  else if b[0] = 0x5f ∧ b[1] = 0x00 then false
  else if b[0] &&& 0xfe = 0xfc then false
  else if b[0] = 0xfe ∧ b[1] &&& 0xc0 = 0x80 then false
  else if b[0] = 0xfe ∧ b[1] &&& 0xc0 = 0xc0 then false
  else if b[0] = 0xff then false
  else if b[0] = 0x20 ∧ b[1] = 0x01 ∧ b[2] = 0x0d ∧ b[3] = 0xb8 then false
  else true

def addrPublic : SockAddr → Bool
  | .inet a => v4Public a
  | .inet6 b => v6Public b
  | .other => false

/-- The IPv4 address an IPv6 one carries: mapped, compatible or 6to4. -/
inductive Embeds : List UInt8 → UInt32 → Prop where
  | mapped (a b c d : UInt8) : Embeds [0, 0, 0, 0, 0, 0, 0, 0, 0, 0, 0xff, 0xff, a, b, c, d] (v4Of a b c d)
  | compatible (a b c d : UInt8) : Embeds [0, 0, 0, 0, 0, 0, 0, 0, 0, 0, 0, 0, a, b, c, d] (v4Of a b c d)
  | sixToFour (a b c d : UInt8) (rest : List UInt8) : Embeds (0x20 :: 0x02 :: a :: b :: c :: d :: rest) (v4Of a b c d)

structure UfUrl where
  host : Text
  port : Text
  path : Text
  useTls : Bool

/-- Is this a port number, of up to five digits and in a field of `cap` bytes? -/
def validPort (pp : List UInt8) (cap : Nat) : Bool :=
  pp ≠ [] && pp.length < cap && pp.length ≤ 5 && pp.all isDigit && 1 ≤ decimal pp && decimal pp ≤ 65535

/-- `oc_url_authority`: the host without its brackets, and the port where one is written. -/
def urlAuthority (auth : List UInt8) (hcap pcap : Nat) : Option (Text × Option Text) :=
  let split : Option (List UInt8 × Option (List UInt8)) := if auth.head? = some 91 then
      if 93 ∉ auth ∨ auth[1]? = some 93 then none
      else
        let h := (auth.drop 1).takeWhile (· != 93)
        match auth.drop (h.length + 2) with
        | [] => some (h, none)
        | 58 :: pp => some (h, some pp)
        | _ => none
    else
      let h := auth.takeWhile (· != 58)
      match auth.drop h.length with
      | [] => some (h, none)
      | _ :: pp => if 58 ∈ pp then none else some (h, some pp)
  split.bind fun found =>
    if found.1 = [] ∨ hcap ≤ found.1.length then none
    else
      match found.2 with
      | none => some (found.1, none)
      | some pp => if validPort pp pcap then some (found.1, some pp) else none

def ufParseUrl (url : Text) : Option UfUrl :=
  if ufMaxUrl ≤ url.length then none
  else
    let scheme : Option (Bool × Text × Text) :=
      if startsCi (text "https://") url then some (true, text "443", url.drop 8)
      else if startsCi (text "http://") url then some (false, text "80", url.drop 7)
      else none
    scheme.bind fun (useTls, defaultPort, p) =>
      let auth := p.takeWhile fun c => c != 47 && c != 63 && c != 35
      if auth = [] then none
      else
        (urlAuthority auth 256 16).map fun (host, port) =>
          let tail := (p.drop auth.length).takeWhile (· != 35)
          { host := host, port := port.getD defaultPort, useTls := useTls
            path := fitted ufMaxUrl (if tail.head? = some 47 then tail else 47 :: tail) }

/-- `oc_url_hostheader`; an IPv6 host wears its brackets. -/
def urlHostheader (host : Text) (port : Option Text) (cap : Nat) : Option Text :=
  let wrapped := if 58 ∈ host then 91 :: host ++ [93] else host
  let out := match port with
    | some (c :: port) => wrapped ++ 58 :: c :: port
    | _ => wrapped
  if cap ≤ out.length then none else some out

/-- `uf_header`: the value of the first line that names it, what a text of `cap` bytes holds. -/
def ufHeader (head : List UInt8) (name : Text) (cap : Nat) : Option Text :=
  let found := (head.splitOn 10).find? fun row =>
    name.length < row.length && row[name.length]? == some 58 && startsCi name row
  found.map fun row =>
    let value := (row.drop (name.length + 1)).dropWhile fun c => c == 32 || c == 9
    cstr (fitted cap (value.rdropWhile fun c => c == 13 || c == 32))

structure HopEnv where
  getaddrinfo : Text → Text → Option (List SockAddr)
  /-- Does the connection to the address at this place of the answer come about? -/
  connects : Nat → Bool
  /-- The TLS connection was set up and its handshake went through. -/
  handshake : Bool
  written : Bool
  allocated : Bool
  /-- All that was read before the end, an error or the deadline. -/
  received : List UInt8

/-- One attempt to connect: the address, and the resolver's answer it is from. -/
structure Dial where
  address : SockAddr
  answer : List SockAddr
  connected : Bool
  deriving DecidableEq

def dialEach (answer : List SockAddr) (connects : Nat → Bool) : Nat → List SockAddr → List Dial
  | _, [] => []
  | i, address :: rest =>
    if connects i then [⟨address, answer, true⟩]
    else ⟨address, answer, false⟩ :: dialEach answer connects (i + 1) rest

def ufConnect (env : HopEnv) (loc : UfUrl) (allowPrivate : Bool) : List Dial :=
  match env.getaddrinfo loc.host loc.port with
  | none => []
  | some answer =>
    if !allowPrivate && answer.any (!addrPublic ·) then []
    else dialEach answer env.connects 0 answer

def ufRequest (loc : UfUrl) : Option Text :=
  let isDefault := (loc.useTls && loc.port == text "443") || (!loc.useTls && loc.port == text "80")
  (urlHostheader loc.host (if isDefault then none else some loc.port) 300).bind fun hosthdr =>
    let req := text "GET " ++ loc.path ++ text " HTTP/1.0\r\nHost: " ++ hosthdr ++
      text "\r\nUser-Agent: openchimed-unfurl\r\nAccept: text/html\r\nConnection: close\r\n\r\n"
    if ufMaxUrl + 512 ≤ req.length then none else some req

inductive HopEnd where
  | failed
  | redirect (cur : Text)
  | page (body : List UInt8)

def isRedirect (status : Int) : Bool :=
  status == 301 || status == 302 || status == 303 || status == 307 || status == 308

/-- Where a redirect goes: a path stays with the scheme, host and port. -/
def redirectTo (loc : UfUrl) (location : Text) : Option Text :=
  if location.head? = some 47 then
    (urlHostheader loc.host (some loc.port) 300).bind fun auth =>
      let abs := text (if loc.useTls then "https" else "http") ++ text "://" ++ auth ++ location
      if ufMaxUrl ≤ abs.length then none else some abs
  else if ufMaxUrl ≤ location.length then none
  else some location

def readResponse (loc : UfUrl) (last : Bool) (buf : List UInt8) : HopEnd :=
  match ciFind (text "\r\n\r\n") buf with
  | none => .failed
  | some hdrEnd =>
    if buf.take 7 ≠ text "HTTP/1." ∨ buf.length < 12 then .failed
    else if isRedirect (atoi (buf.drop 9)) then
      match ufHeader (buf.take hdrEnd) (text "location") ufMaxUrl with
      | none => .failed
      | some location =>
        if last then .failed
        else
          match redirectTo loc location with
          | none => .failed
          | some cur => .redirect cur
    else if atoi (buf.drop 9) ≠ 200 then .failed
    else
      match ufHeader (buf.take hdrEnd) (text "content-type") 128 with
      | none => .failed
      | some ctype =>
        if (ciFind (text "text/html") ctype).isNone then .failed
        else .page (buf.drop (hdrEnd + 4))

structure Unfurler where
  tlsOk : Bool
  allowPrivate : Bool

structure Fetched where
  dials : List Dial
  page : Option (List UInt8)

def ufExchange (env : HopEnv) (loc : UfUrl) (last : Bool) : HopEnd :=
  if loc.useTls && !env.handshake then .failed
  else
    match ufRequest loc with
    | none => .failed
    | some _ =>
      if !env.written || !env.allocated then .failed
      else readResponse loc last (env.received.take ufMaxBody)

/-- One round of the loop of `uf_get`: what it dials, and how it ends. -/
def Unfurler.hop (u : Unfurler) (env : HopEnv) (last : Bool) (cur : Text) : List Dial × HopEnd :=
  match ufParseUrl cur with
  | none => ([], .failed)
  | some loc =>
    if loc.useTls && !u.tlsOk then ([], .failed)
    else
      let dials := ufConnect env loc u.allowPrivate
      (dials, if dials.any Dial.connected then ufExchange env loc last else .failed)

/-- The loop from a hop on; `left` redirects may still be followed. -/
def Unfurler.getFrom (u : Unfurler) (env : Nat → HopEnv) : Nat → Text → Fetched
  | 0, cur =>
    match u.hop (env ufMaxRedirects) true cur with
    | (dials, .page body) => ⟨dials, some body⟩
    | (dials, _) => ⟨dials, none⟩
  | left + 1, cur =>
    match u.hop (env (ufMaxRedirects - (left + 1))) false cur with
    | (dials, .page body) => ⟨dials, some body⟩
    | (dials, .redirect cur) =>
      let rest := u.getFrom env left cur
      ⟨dials ++ rest.dials, rest.page⟩
    | (dials, .failed) => ⟨dials, none⟩

def Unfurler.get (u : Unfurler) (env : Nat → HopEnv) (url : List UInt8) : Fetched :=
  if ufMaxUrl ≤ url.length then ⟨[], none⟩ else u.getFrom env ufMaxRedirects (cstr url)

/-! What was dialled: only answers that passed the gate, one connection on each hop. -/

/-- The attempt is of an answer some call of the resolver gave, and all of it is public. -/
structure Dial.Vetted (env : Nat → HopEnv) (dial : Dial) : Prop where
  listed : dial.address ∈ dial.answer
  answered : ∃ hop host port, (env hop).getaddrinfo host port = some dial.answer
  isPublic : ∀ address ∈ dial.answer, addrPublic address = true

theorem dialEach_spec (answer : List SockAddr) (connects : Nat → Bool) (i : Nat) (rest : List SockAddr) :
    (∀ dial ∈ dialEach answer connects i rest, dial.answer = answer ∧ dial.address ∈ rest) ∧
      (dialEach answer connects i rest).countP Dial.connected ≤ 1 := by
  induction rest generalizing i with
  | nil => simp [dialEach]
  | cons address rest ih =>
    unfold dialEach
    split
    · simp
    obtain ⟨dialled, once⟩ := ih (i + 1)
    constructor
    · intro dial mem
      rcases List.mem_cons.mp mem with rfl | later
      · exact ⟨rfl, List.mem_cons_self⟩
      · obtain ⟨same, listed⟩ := dialled dial later
        exact ⟨same, List.mem_cons_of_mem _ listed⟩
    · exact once

variable {u : Unfurler} {env : Nat → HopEnv} {hop : Nat} {loc : UfUrl} {last : Bool} {cur : Text}

theorem ufConnect_spec : (∀ dial ∈ ufConnect (env hop) loc false, dial.Vetted env) ∧
      (ufConnect (env hop) loc false).countP Dial.connected ≤ 1 := by
  unfold ufConnect
  cases found : (env hop).getaddrinfo loc.host loc.port with
  | none => simp
  | some answer =>
    dsimp only
    split
    · simp
    next passed =>
    have isPublic : ∀ address ∈ answer, addrPublic address = true := by
      simpa using passed
    obtain ⟨dialled, once⟩ := dialEach_spec answer (env hop).connects 0 answer
    refine ⟨?_, once⟩
    intro dial mem
    obtain ⟨same, listed⟩ := dialled dial mem
    rw [← same] at listed found isPublic
    exact ⟨listed, ⟨hop, loc.host, loc.port, found⟩, isPublic⟩

theorem Unfurler.hop_spec (off : u.allowPrivate = false) : (∀ dial ∈ (u.hop (env hop) last cur).1, dial.Vetted env) ∧
      (u.hop (env hop) last cur).1.countP Dial.connected ≤ 1 := by
  unfold Unfurler.hop
  split
  · simp
  split
  · simp
  · rw [off]
    exact ufConnect_spec

theorem Unfurler.getFrom_spec (off : u.allowPrivate = false) (left : Nat) (cur : Text) :
    (∀ dial ∈ (u.getFrom env left cur).dials, dial.Vetted env) ∧
      (u.getFrom env left cur).dials.countP Dial.connected ≤ left + 1 := by
  induction left generalizing cur with
  | zero =>
    obtain ⟨vetted, once⟩ := @Unfurler.hop_spec u env ufMaxRedirects true cur off
    unfold getFrom
    cases ended : u.hop (env ufMaxRedirects) true cur with
    | mk dials hopEnd =>
      rw [ended] at vetted once
      cases hopEnd with
      | failed | redirect | page => exact ⟨vetted, once⟩
  | succ left ih =>
    obtain ⟨vetted, once⟩ := @Unfurler.hop_spec u env (ufMaxRedirects - (left + 1)) false cur off
    unfold getFrom
    cases ended : u.hop (env (ufMaxRedirects - (left + 1))) false cur with
    | mk dials hopEnd =>
      rw [ended] at vetted once
      dsimp only at vetted once
      cases hopEnd with
      | failed | page => exact ⟨vetted, once.trans (Nat.le_add_left 1 (left + 1))⟩
      | redirect next =>
        obtain ⟨restVetted, restOnce⟩ := ih next
        constructor
        · intro dial mem
          rcases List.mem_append.mp mem with here | later
          · exact vetted dial here
          · exact restVetted dial later
        · rw [List.countP_append]
          omega

theorem v4Public_of_embeds {b : Vector UInt8 16} {a : UInt32} (embeds : Embeds b.toList a)
    (isPublic : v6Public b = true) : v4Public a = true := by
  obtain ⟨⟨bytes⟩, sized⟩ := b
  cases embeds with
  | mapped b12 b13 b14 b15 => exact isPublic
  | compatible b12 b13 b14 b15 => exact isPublic
  | sixToFour b2 b3 b4 b5 rest => exact isPublic

/-- With the gate on, whatever the resolver and the servers answer. -/
theorem unfurl_reaches_no_private_address {u : Unfurler} (env : Nat → HopEnv) (url : List UInt8)
    (off : u.allowPrivate = false) :
    (∀ dial ∈ (u.get env url).dials, dial.Vetted env) ∧
      (u.get env url).dials.countP Dial.connected ≤ ufMaxRedirects + 1 ∧
      ∀ b a, Embeds b.toList a → addrPublic (.inet6 b) = true → addrPublic (.inet a) = true := by
  refine ⟨?_, ?_, ?_⟩
  · unfold Unfurler.get
    split
    · simp
    · exact (Unfurler.getFrom_spec off _ _).1
  · unfold Unfurler.get
    split
    · simp
    · exact (Unfurler.getFrom_spec off _ _).2
  · intro b a embeds isPublic
    exact v4Public_of_embeds embeds isPublic

def redirecting : HopEnv where
  getaddrinfo _ _ := some [.inet 0x08080808]
  connects _ := true
  handshake := true
  written := true
  allocated := true
  received := text "HTTP/1.0 302\r\nLocation: /\r\n\r\n"

theorem unfurl_reaches_no_private_address_redirected :
    ((⟨true, false⟩ : Unfurler).get (fun _ => redirecting) (text "http://h")).dials =
        List.replicate 4 ⟨.inet 0x08080808, [.inet 0x08080808], true⟩ ∧
      (∀ dial ∈ ((⟨true, false⟩ : Unfurler).get (fun _ => redirecting) (text "http://h")).dials,
        dial.Vetted fun _ => redirecting) ∧
      ((⟨true, false⟩ : Unfurler).get (fun _ => redirecting) (text "http://h")).dials.countP
        Dial.connected ≤ ufMaxRedirects + 1 ∧
      ∀ b a, Embeds b.toList a → addrPublic (.inet6 b) = true → addrPublic (.inet a) = true :=
  ⟨by decide +kernel, unfurl_reaches_no_private_address _ _ rfl⟩

/-! What is written to the servers: lines of the fetcher's own. -/

section Requests

open List

/-- What a hop writes to the server it reached. -/
def Unfurler.request (u : Unfurler) (env : HopEnv) (cur : Text) : Option Text :=
  (ufParseUrl cur).bind fun loc => if loc.useTls && !(u.tlsOk && env.handshake) then none
    else if (ufConnect env loc u.allowPrivate).any Dial.connected then ufRequest loc else none

/-- The requests of up to so many hops, the last of which follows no redirect. -/
def Unfurler.requests (u : Unfurler) (env : Nat → HopEnv) : Nat → Text → List Text
  | 0, _ => []
  | left + 1, cur =>
    (u.request (env (ufMaxRedirects - left)) cur).toList ++
      match (u.hop (env (ufMaxRedirects - left)) (left == 0) cur).2 with
      | .redirect next => u.requests env left next
      | _ => []

theorem Unfurler.request_dials (u : Unfurler) (env : HopEnv) (last : Bool) (cur : Text) :
    (u.request env cur).toList.length ≤ (u.hop env last cur).1.countP Dial.connected := by
  cases sent : u.request env cur with
  | none => exact Nat.zero_le _
  | some req =>
    obtain ⟨loc, parsed, rest⟩ := bind_eq_some_iff.mp sent
    obtain ⟨noTls, dialled⟩ : (loc.useTls && !u.tlsOk) = false ∧
        (ufConnect env loc u.allowPrivate).any Dial.connected = true := by grind
    rw [Unfurler.hop, parsed]
    dsimp only
    rw [noTls]
    exact countP_pos_iff.mpr (any_eq_true.mp dialled)

/-- The requests go over the connections of `getFrom`. -/
theorem Unfurler.requests_dial (u : Unfurler) (env : Nat → HopEnv) (left : Nat) (cur : Text) :
    (u.requests env (left + 1) cur).length ≤ (u.getFrom env left cur).dials.countP Dial.connected := by
  induction left generalizing cur with
  | zero =>
    have here := u.request_dials (env ufMaxRedirects) true cur
    rw [requests, getFrom, length_append, Nat.sub_zero, beq_self_eq_true]
    generalize u.hop (env ufMaxRedirects) true cur = hopped at here ⊢
    rcases hopped with ⟨dials, _ | _ | _⟩ <;> simpa [requests] using here
  | succ left ih =>
    have here := u.request_dials (env (ufMaxRedirects - (left + 1))) false cur
    rw [requests, getFrom, length_append, beq_false_of_ne (Nat.succ_ne_zero left)]
    generalize u.hop (env (ufMaxRedirects - (left + 1))) false cur = hopped at here ⊢
    rcases hopped with ⟨dials, _ | next | _⟩
    · simpa using here
    · simpa [countP_append] using Nat.add_le_add here (ih next)
    · simpa using here

/-- Where a hop's answer sends the fetcher on to. -/
def HopEnv.location (env : HopEnv) : Option Text :=
  let buf := env.received.take ufMaxBody
  if isRedirect (atoi (buf.drop 9)) then
    (ciFind (text "\r\n\r\n") buf).bind fun hdrEnd => ufHeader (buf.take hdrEnd) (text "location") ufMaxUrl
  else none

/-- No carriage return and no line feed. -/
abbrev Plain (s : Text) : Prop := ∀ b ∈ s, b ≠ 13 ∧ b ≠ 10

/-- The fetcher's six lines, with no end of a line but theirs. -/
def SixLines (req : Text) : Prop := ∃ lines : List Text, lines.length = 6 ∧ (∀ line ∈ lines, Plain line) ∧
  req = lines.flatMap (· ++ [13, 10])

variable {s t req host new : Text} {port : Option Text} {server : HopEnv}

theorem Plain.sublist (plain : Plain t) (part : s <+ t) : Plain s := fun b mem => plain b (part.subset mem)

theorem Plain.within (plain : Plain s) (n : Nat) (p : UInt8 → Bool) : Plain ((s.drop n).takeWhile p) :=
  plain.sublist ((takeWhile_sublist p).trans (drop_sublist n s))

theorem Plain.tail {n : Nat} {b : UInt8} (plain : Plain s) (rest : s.drop n = b :: t) : Plain t :=
  fun c mem => plain c (mem_of_mem_drop (by rw [rest]; exact mem_cons_of_mem b mem))

theorem Plain.authority {auth : Text} {hcap pcap : Nat} (plain : Plain auth)
    (found : urlAuthority auth hcap pcap = some (host, port)) : Plain host ∧ ∀ p ∈ port, Plain p := by
  obtain ⟨⟨h, p⟩, split, rest⟩ := bind_eq_some_iff.mp found
  have parts : Plain h ∧ ∀ pp ∈ p, Plain pp := by
    have bracketed := plain.within 1 (· != 93)
    have named := plain.within 0 (· != 58)
    split at split
    · split at split
      · cases split
      · dsimp only at split
        split at split <;> cases split <;> grind [Plain.tail]
    dsimp only at split
    split at split
    · cases split
      grind
    · split at split <;> cases split
      grind [Plain.tail]
  grind

theorem Plain.parse (plain : Plain cur) (parsed : ufParseUrl cur = some loc) :
    Plain loc.host ∧ Plain loc.port ∧ Plain loc.path := by
  unfold ufParseUrl at parsed
  split at parsed
  · cases parsed
  obtain ⟨⟨useTls, defaultPort, p⟩, scheme, rest⟩ := bind_eq_some_iff.mp parsed
  have begun : Plain p ∧ Plain defaultPort := by
    have http : Plain (text "80") ∧ Plain (text "443") := by decide +kernel
    grind [mem_of_mem_drop]
  dsimp only at rest
  split at rest
  · cases rest
  obtain ⟨⟨host, port⟩, authority, isLoc⟩ := map_eq_some_iff.mp rest
  obtain ⟨hostPlain, portPlain⟩ := Plain.authority (begun.1.within 0 _) authority
  have tail := begun.1.within (p.takeWhile fun c => c != 47 && c != 63 && c != 35).length (· != 35)
  subst isLoc
  refine ⟨hostPlain, by cases port <;> grind, Plain.sublist ?_ (take_sublist _ _)⟩
  split
  · exact tail
  · exact forall_mem_cons.mpr ⟨by decide, tail⟩

theorem Plain.hostheader {out : Text} {cap : Nat} (plain : Plain host)
    (portPlain : ∀ p ∈ port, Plain p) (found : urlHostheader host port cap = some out) : Plain out := by
  unfold urlHostheader at found
  grind

variable (plain : Plain cur)

include plain

theorem Plain.sixLines (parsed : ufParseUrl cur = some loc) (written : ufRequest loc = some req) : SixLines req := by
  obtain ⟨hostPlain, portPlain, pathPlain⟩ := plain.parse parsed
  obtain ⟨hosthdr, isHost, rest⟩ := bind_eq_some_iff.mp written
  have headerPlain := hostPlain.hostheader (by grind) isHost
  dsimp only at rest
  split at rest
  · cases rest
  cases rest
  refine ⟨[text "GET " ++ loc.path ++ text " HTTP/1.0", text "Host: " ++ hosthdr,
    text "User-Agent: openchimed-unfurl", text "Accept: text/html", text "Connection: close", []], rfl, ?_, ?_⟩
  · have own : Plain (text "GET " ++ text " HTTP/1.0" ++ text "Host: " ++ text "User-Agent: openchimed-unfurl" ++
        text "Accept: text/html" ++ text "Connection: close") := by
      -- taking a string apart is slow in the kernel
      decide +kernel
    grind
  · simp [text, ascii]

theorem Plain.redirectTo {location : Text} (parsed : ufParseUrl cur = some loc)
    (there : Plain location) (found : redirectTo loc location = some new) : Plain new := by
  obtain ⟨hostPlain, portPlain, -⟩ := plain.parse parsed
  have own : Plain (text "http") ∧ Plain (text "https") ∧ Plain (text "://") := by decide +kernel
  unfold Daemon.redirectTo at found
  split at found
  · obtain ⟨auth, isAuth, rest⟩ := bind_eq_some_iff.mp found
    have authPlain := hostPlain.hostheader (by grind) isAuth
    grind
  · grind

theorem SixLines.request (sent : u.request server cur = some req) : SixLines req := by
  obtain ⟨loc, parsed, written⟩ := bind_eq_some_iff.mp sent
  exact plain.sixLines parsed (by grind)

theorem Plain.next (there : ∀ location ∈ server.location, Plain location)
    (onward : (u.hop server last cur).2 = .redirect new) : Plain new := by
  obtain ⟨loc, parsed, response⟩ : ∃ loc, ufParseUrl cur = some loc ∧
      readResponse loc last (server.received.take ufMaxBody) = .redirect new := by
    unfold Unfurler.hop ufExchange at onward
    grind
  obtain ⟨location, named, moved⟩ : ∃ location ∈ server.location, Daemon.redirectTo loc location = some new := by
    unfold readResponse at response
    unfold HopEnv.location
    grind
  exact plain.redirectTo parsed (there location named) moved

omit plain

theorem requests_sixLines (u : Unfurler) (env : Nat → HopEnv) (hops : Nat) (url : Text) (plain : Plain url)
    (there : ∀ hop, ∀ location ∈ (env hop).location, Plain location) :
    ∀ req ∈ u.requests env hops url, SixLines req := by
  induction hops generalizing url with
  | zero => simp [Unfurler.requests]
  | succ left ih =>
    refine forall_mem_append.mpr ⟨fun req mem => .request plain (mem_toList.mp mem), ?_⟩
    split
    · next next onward => exact ih next (plain.next (there _) onward)
    · simp

theorem requests_sixLines_redirected :
    let sent := (⟨true, false⟩ : Unfurler).requests (fun _ => redirecting) 4 (text "http://h")
    sent.length = 4 ∧ ∀ req ∈ sent, SixLines req :=
  ⟨by decide +kernel, requests_sixLines _ _ _ _ (by decide +kernel) fun _ => by decide +kernel⟩

theorem SixLines.count (six : SixLines req) : req.count 13 = 6 := by
  obtain ⟨lines, length, plain, same⟩ := six
  rw [← length, same]
  clear length same
  induction lines with
  | nil => rfl
  | cons line lines ih =>
    obtain ⟨first, others⟩ := forall_mem_cons.mp plain
    have none : line.count 13 = 0 := count_eq_zero.mpr fun mem => (first 13 mem).1 rfl
    rw [flatMap_cons, count_append, count_append, none, ih others, Nat.add_comm]
    rfl

theorem redirect_adds_a_line : ∃ req ∈ (⟨true, false⟩ : Unfurler).requests (fun _ => { redirecting with
      received := text "HTTP/1.0 302\r\nLocation: /\rX: y\r\n\r\n" }) (ufMaxRedirects + 1) (text "http://h"), ¬SixLines
        req :=
  Exists.imp (fun _ => And.imp_right (mt SixLines.count)) (by decide +kernel)

end Requests

end OpenChime.Daemon
