import Mathlib.Data.List.Lex
import GrpcMtk.Core.OrdMap
import GrpcMtk.Http.RequestPath
import GrpcMtk.Http.Requests
import GrpcMtk.Http.Serving

/-!
# Routing requests

`HttpRouter` is a callback that compares the request path with the keys of a
map and calls the handlers of those that are equal.  Together with the parser
and the connection it answers a request that arrives in any number of pieces
with what the handler registered last for its path writes.
-/

namespace GrpcMtk.Http

open GrpcMtk.Proto
open GrpcMtk.Runs

/-- Bytes are compared as unsigned numbers. -/
instance byteLinearOrder : LinearOrder UInt8 where
  le_refl := UInt8.le_refl
  le_trans _ _ _ := UInt8.le_trans
  le_antisymm _ _ := UInt8.le_antisymm
  le_total := UInt8.le_total
  lt_iff_le_not_ge left right := by
    simp only [UInt8.lt_iff_toNat_lt, UInt8.le_iff_toNat_le]
    omega
  toDecidableLE := inferInstance
  toDecidableEq := inferInstance
  toDecidableLT := inferInstance

/-- `HttpRouter`. -/
structure HttpRouter where
  routes : OrdMap Bytes Callback

namespace HttpRouter

def new : HttpRouter := ⟨.empty⟩

/-- `HttpRouter::Route`. -/
def route (pathPattern : Bytes) (handler : Callback) (router : HttpRouter) :
    HttpRouter :=
  ⟨router.routes.assign pathPattern handler⟩

/-- A router after these calls of `Route`. -/
def ofRoutes (routes : List (Bytes × Callback)) : HttpRouter :=
  routes.foldl (fun router entry => router.route entry.1 entry.2) new

/-- `sizeof(buff)`. -/
def buffSize : ℕ := 256

/-- The loop of `operator ()`. -/
def callRoutes (path : Bytes) (req : HttpFSM) :
    List (Bytes × Callback) → Option (List WriterCall)
  | [] => some []
  | entry :: rest =>
      if entry.1 = path then
        (entry.2 req).bind fun calls =>
          (callRoutes path req rest).map fun more => calls ++ more
      else callRoutes path req rest

/-- `HttpRouter::operator ()`.  The behaviour is undefined if `url` writes
behind `buff` or if a null path is compared with a key. -/
def call (router : HttpRouter) : Callback := fun req =>
  let scan := req.url buffSize
  if scan.written.length > buffSize then none
  else
    match scan.outlen with
    | none => if router.routes.entries = [] then some [] else none
    | some _ =>
        callRoutes (scan.written.takeWhile fun byte => byte ≠ 0) req
          router.routes.entries

/-- The handler registered last for a path. -/
def lastRoute (routes : List (Bytes × Callback)) (path : Bytes) :
    Option Callback :=
  (routes.reverse.find? fun entry => entry.1 = path).map Prod.snd

/-- What the handler for a path writes; without one nothing is written. -/
def handled (routes : List (Bytes × Callback)) (path : Bytes) : Callback :=
  fun req =>
    match lastRoute routes path with
    | none => some []
    | some handler => handler req

section Routes

variable {path : Bytes} {req : HttpFSM}

theorem callRoutes_of_not_mem {entries : List (Bytes × Callback)}
    (hnone : ∀ entry ∈ entries, entry.1 ≠ path) :
    callRoutes path req entries = some [] := by
  induction entries with
  | nil => rfl
  | cons entry rest ih =>
      rw [callRoutes, if_neg (hnone entry List.mem_cons_self)]
      exact ih fun other hother => hnone other (List.mem_cons_of_mem _ hother)

/-- Of entries with distinct keys at most one is called. -/
theorem callRoutes_eq {entries : List (Bytes × Callback)}
    (hdistinct : entries.Pairwise fun left right => left.1 ≠ right.1) :
    callRoutes path req entries =
      match (entries.find? fun entry => entry.1 = path).map Prod.snd with
      | none => some []
      | some handler => handler req := by
  induction entries with
  | nil => rfl
  | cons entry rest ih =>
      obtain ⟨hfirst, hrest⟩ := List.pairwise_cons.mp hdistinct
      by_cases hpath : entry.1 = path
      · have hnone : callRoutes path req rest = some [] :=
          callRoutes_of_not_mem fun other hother =>
            fun h => hfirst other hother (hpath.trans h.symm)
        have hfind : (entry :: rest).find? (fun other => other.1 = path) =
            some entry := List.find?_cons_of_pos (decide_eq_true hpath)
        rw [callRoutes, if_pos hpath, hnone, hfind]
        cases hcalls : entry.2 req with
        | none => simp [hcalls]
        | some calls => simp [hcalls]
      · rw [callRoutes, if_neg hpath,
          List.find?_cons_of_neg (by simpa using hpath)]
        exact ih hrest

/-- The map keeps the handler registered last for each path. -/
theorem find?_ofRoutes (routes : List (Bytes × Callback)) (path : Bytes) :
    (ofRoutes routes).routes.find? path = lastRoute routes path := by
  induction routes using List.reverseRecOn with
  | nil => rfl
  | append_singleton routes entry ih =>
      have hlast : (ofRoutes (routes ++ [entry])).routes =
          (ofRoutes routes).routes.assign entry.1 entry.2 := by
        rw [ofRoutes, ofRoutes, List.foldl_append]
        rfl
      rw [hlast, lastRoute, List.reverse_append, List.reverse_singleton,
        List.singleton_append]
      by_cases hpath : entry.1 = path
      · have hfind : (entry :: routes.reverse).find?
            (fun other => other.1 = path) = some entry :=
          List.find?_cons_of_pos (decide_eq_true hpath)
        rw [hfind, ← hpath]
        exact OrdMap.find?_assign_self
      · have hfind : (entry :: routes.reverse).find?
            (fun other => other.1 = path) =
              routes.reverse.find? fun other => other.1 = path :=
          List.find?_cons_of_neg (by simpa using hpath)
        rw [hfind]
        exact (OrdMap.find?_assign_of_ne (Ne.symm hpath)).trans ih

end Routes

/-- A path that `url` returns is routed to the handler registered last for
it. -/
theorem call_of_returns {routes : List (Bytes × Callback)} {path : Bytes}
    {req : HttpFSM} (hpath : path.length < buffSize) (hnul : 0 ∉ path)
    (hreturns : (req.url buffSize).toCopied.Returns (some path)) :
    (ofRoutes routes).call req = handled routes path req := by
  have hurl : (req.url buffSize).toCopied =
      { written := path ++ [0], outlen := some path.length } := hreturns
  have hwritten : (req.url buffSize).written = path ++ [0] :=
    congrArg Copied.written hurl
  have houtlen : (req.url buffSize).outlen = some path.length :=
    congrArg Copied.outlen hurl
  have hcstr : ((path ++ [0]).takeWhile fun byte => decide (byte ≠ 0)) =
      path := @HttpFSM.takeWhile_of_nul [] path [] hnul
  have hfits : ¬(path ++ [0]).length > buffSize := by
    rw [List.length_append, List.length_singleton]
    omega
  have hfind : (ofRoutes routes).routes.find? path =
      ((ofRoutes routes).routes.entries.find? fun entry =>
        entry.1 = path).map Prod.snd := by
    unfold OrdMap.find?
    congr!
  have hkeys : (ofRoutes routes).routes.entries.Pairwise
      fun left right => left.1 ≠ right.1 :=
    (ofRoutes routes).routes.sorted.imp fun hlt => ne_of_lt hlt
  rw [call, hwritten, if_neg hfits, houtlen]
  dsimp only
  rw [hcstr, callRoutes_eq hkeys, ← hfind, find?_ofRoutes]
  rfl

end HttpRouter

/-! ## The path of a request without a body -/

/-- The lines of a block are kept one behind the other. -/
theorem kept_lines {ending : Bytes} (hending : HttpFSM.LineEnd ending)
    (lines : List Line) :
    Kept (keptLines ending lines) (lineEntries ending 0 lines)
      (lines.map Line.text) := by
  obtain ⟨init, hinit, -⟩ := HttpFSM.lineEnd_eq_append hending
  have hcount : ending.length = init.length + 1 := by
    rw [hinit, List.length_append, List.length_singleton]
  have hentries (offset : ℕ) (lines : List Line) (line : Line) :
      lineEntries ending offset (lines ++ [line]) =
        lineEntries ending offset lines ++
          [⟨offset + (keptLines ending lines).length,
            line.text.length % 2 ^ 16⟩] := by
    induction lines generalizing offset with
    | nil => rfl
    | cons first rest ih =>
        rw [List.cons_append, lineEntries, ih, lineEntries, keptLines,
          keptLines, List.flatMap_cons, List.length_append,
          List.length_append, List.length_replicate, List.cons_append]
        simp only [Nat.add_assoc]
  induction lines using List.reverseRecOn with
  | nil => exact .nil
  | append_singleton lines line ih =>
      have hkept : keptLines ending (lines ++ [line]) =
          keptLines ending lines ++
            (line.text ++ List.replicate (init.length + 1) 0) := by
        rw [keptLines, List.flatMap_append, List.flatMap_singleton, hcount,
          keptLines]
        simp only [hcount]
      rw [hkept, hentries, List.map_append, Nat.zero_add]
      exact ih.line line.text line.nonempty init.length

namespace BodylessRequest

variable {request : BodylessRequest}

/-- The target without its '/'. -/
def path (request : BodylessRequest) : Bytes := request.target.tail

theorem target_eq : request.target = Http.slash :: request.path := by
  have hslash := request.slash
  rw [path]
  cases htarget : request.target with
  | nil =>
      rw [htarget] at hslash
      contradiction
  | cons byte rest =>
      rw [htarget, List.head?_cons] at hslash
      exact congrArg (· :: rest) (Option.some.inj hslash)

theorem space_not_mem_method : space ∉ request.method := fun hmem => by
  have hletter := request.letters space hmem
  contradiction

theorem space_not_mem_target : space ∉ request.target := fun hmem =>
  absurd (request.visible space hmem).1 (by decide)

theorem nul_not_mem_path : 0 ∉ request.path := fun hmem =>
  absurd (request.visible 0 (List.mem_of_mem_tail hmem)).1 (by decide)

theorem behindMethod_requestLine : behindMethod request.requestLine =
    request.target ++ space :: request.version := by
  have hmethod : ∀ byte ∈ request.method, decide (byte ≠ space) = true :=
    fun byte hbyte => decide_eq_true fun h => space_not_mem_method (h ▸ hbyte)
  rw [behindMethod, requestLine, List.dropWhile_append_of_pos hmethod,
    List.dropWhile_cons_of_neg (by simp)]
  rfl

theorem method_requestLine : Http.method request.requestLine =
    request.method := by
  have hmethod : ∀ byte ∈ request.method, decide (byte ≠ space) = true :=
    fun byte hbyte => decide_eq_true fun h => space_not_mem_method (h ▸ hbyte)
  rw [Http.method, requestLine, List.takeWhile_append_of_pos hmethod,
    List.takeWhile_cons_of_neg (by simp), List.append_nil]

theorem target_requestLine : Http.target request.requestLine =
    some request.path := by
  have hmem : space ∈ request.target ++ space :: request.version :=
    List.mem_append_right _ List.mem_cons_self
  have htarget : ∀ byte ∈ request.target, decide (byte ≠ space) = true :=
    fun byte hbyte => decide_eq_true fun h => space_not_mem_target (h ▸ hbyte)
  rw [Http.target, behindMethod_requestLine, if_pos hmem,
    List.takeWhile_append_of_pos htarget,
    List.takeWhile_cons_of_neg (by simp), List.append_nil, target_eq]
  rfl

/-- `url` reads the path of a request line that is stored in whole. -/
theorem pathReadable (hlength : request.requestLine.length < 2 ^ 16) {l : ℕ}
    (hpath : request.path.length < l) (fsm : HttpFSM) :
    PathReadable l request.requestLine fsm := by
  have hmod : request.requestLine.length % 2 ^ 16 =
      request.requestLine.length := Nat.mod_eq_of_lt hlength
  have hread : MethodRead request.requestLine := by
    rw [MethodRead, method_requestLine, hmod]
    constructor
    · rw [requestLine, List.length_append]
      omega
    · intro hnul
      have hletter := request.letters 0 (List.mem_of_mem_tail hnul)
      contradiction
  refine ⟨?_, ?_, ?_⟩
  · rw [target_requestLine]
    rintro _ ⟨⟩ -
    exact ⟨hread, fun hnul => nul_not_mem_path (List.mem_of_mem_tail hnul)⟩
  · rw [target_requestLine]
    rintro _ ⟨⟩ hfull
    omega
  · intro _ hempty
    rw [behindMethod_requestLine, target_eq] at hempty
    have hrest : request.path ++ space :: request.version = [] := hempty
    exact absurd hrest
      (List.append_ne_nil_of_right_ne_nil _ (List.cons_ne_nil _ _))

/-! ## From the socket to the handler -/

/-- A larger buffer in which nothing is reallocated. -/
private def roomy : ℕ := 2048

section Parsed

variable {memory : ℕ → UInt8} {fsm : HttpFSM}
  (hshort : request.wire.length < 1022)
  (hstatus : statusOf request.requestLine ≠ 200)

/-- In the larger buffer the first line is the request line. -/
private theorem firstLine_roomy
    (hroom : (fsm.reset roomy memory).NeverExpands
      (HttpFSM.singly request.wire)) :
    HttpFSM.FirstLine request.requestLine
      ((fsm.reset roomy memory).feed request.wire) := by
  obtain ⟨stored, hfeed, hat⟩ := HttpFSM.feed_block request.lineEnd
    (HttpFSM.view_reset roomy memory fsm) lines_count hroom
  obtain ⟨init, hinit, -⟩ := HttpFSM.lineEnd_eq_append request.lineEnd
  have hcount : request.ending.length = init.length + 1 := by
    rw [hinit, List.length_append, List.length_singleton]
  have hend : (fsm.reset roomy memory).feed request.wire =
      { (stored.terminate request.ending.length).setResult with
        state := if statusOf request.requestLine = 200 then .error
          else .recvFinish } := hfeed.trans (recv_emptyLine hat)
  have hheaders : ((fsm.reset roomy memory).feed request.wire).headers =
      lineEntries request.ending 0 request.lines := by
    rw [hend]
    exact (HttpFSM.terminate_headers _ stored).trans hat.headers
  have hcontent : ((fsm.reset roomy memory).feed request.wire).content =
      keptLines request.ending request.lines ++
        List.replicate (init.length + 1) 0 := by
    rw [hend, ← hcount]
    exact HttpFSM.content_terminate hat.content
  have hkept := kept_lines request.lineEnd request.lines
  rw [← hheaders] at hkept
  exact HttpFSM.firstLine_of_kept hkept hcontent

include hshort in
private theorem neverExpands_roomy :
    (fsm.reset roomy memory).NeverExpands (HttpFSM.singly request.wire) := by
  apply HttpFSM.neverExpands_of_short (by decide)
  rw [HttpFSM.flatten_singly]
  unfold roomy
  omega

/-- What is fed does not depend on the size of the buffer. -/
private theorem feed_roomy (bytes : Bytes) : ∃ next,
    (fsm.reset roomy memory).feed bytes =
      ((fsm.reset HttpServContext.chunkSize memory).feed bytes).withBuffer
        roomy next :=
  HttpFSM.appendAll_withBuffer roomy roomy
    (fsm.reset HttpServContext.chunkSize memory) (HttpFSM.singly bytes)

private theorem state_receive (bytes : Bytes) :
    ((fsm.reset HttpServContext.chunkSize memory).receive bytes).state =
      ((fsm.reset roomy memory).feed bytes).state := by
  have hstart : HttpServContext.Follows
      (fsm.reset HttpServContext.chunkSize memory)
      (fsm.reset HttpServContext.chunkSize memory) := .inl rfl
  have hfollows := hstart.appendAll (HttpFSM.singly bytes)
  rw [HttpFSM.flatten_singly] at hfollows
  obtain ⟨next, hnext⟩ := @feed_roomy memory fsm bytes
  rw [hnext]
  exact hfollows.state.symm

include hshort hstatus

/-- In the buffer of a connection the request is parsed to its last byte and
shows its lines. -/
theorem parsed_of_short :
    HttpServContext.OneRequest
        (fsm.reset HttpServContext.chunkSize memory) request.wire ∧
      HttpFSM.FirstLine request.requestLine
        ((fsm.reset HttpServContext.chunkSize memory).receive
          request.wire) ∧
      ∀ index,
        ((fsm.reset HttpServContext.chunkSize memory).receive
            request.wire).hdr index =
          (request.lines.map fun line => line.text)[index]? := by
  have hroom := @neverExpands_roomy request memory fsm hshort
  have haccepted := (accepted_iff (HttpFSM.view_reset roomy memory fsm) hroom
    (HttpFSM.inBounds_of_neverExpands (by decide) (by decide) memory fsm
      hroom)).mpr hstatus
  have hfinish := (state_receive request.wire).trans haccepted.finished
  have hstart : HttpServContext.Follows
      (fsm.reset HttpServContext.chunkSize memory)
      (fsm.reset HttpServContext.chunkSize memory) := .inl rfl
  have hfollows := hstart.appendAll (HttpFSM.singly request.wire)
  rw [HttpFSM.flatten_singly] at hfollows
  have hfeed : (fsm.reset HttpServContext.chunkSize memory).feed request.wire =
      (fsm.reset HttpServContext.chunkSize memory).receive request.wire :=
    hfollows.eq_of_finish hfinish
  obtain ⟨next, hnext⟩ := @feed_roomy memory fsm request.wire
  rw [hfeed] at hnext
  have hline := firstLine_roomy hroom
  have hhdr := haccepted.hdr
  rw [hnext] at hline hhdr
  refine ⟨⟨hfinish, fun read rest hwire hrest => ?_⟩,
    ⟨hline.entry, hline.stands, hline.later, hline.ended⟩, hhdr⟩
  rw [state_receive]
  exact haccepted.notBefore read rest hwire hrest

end Parsed

theorem length_requestLine_le (request : BodylessRequest) :
    request.requestLine.length ≤ request.wire.length := by
  rw [wire, lines, wireLines, List.flatMap_cons, List.append_assoc,
    List.append_assoc, List.length_append]
  exact Nat.le_add_right _ _

theorem wire_ne_nil (request : BodylessRequest) : request.wire ≠ [] := by
  intro hempty
  have hnonempty := HttpFSM.length_lineEnd request.lineEnd
  have hsize := congrArg List.length hempty
  rw [List.length_nil, wire, List.length_append] at hsize
  omega

/-- The router finds the path of the request line. -/
theorem call_of_firstLine {request : BodylessRequest} {parsed : HttpFSM}
    (hline : HttpFSM.FirstLine request.requestLine parsed)
    (hlength : request.requestLine.length < 2 ^ 16)
    (hpath : request.path.length < HttpRouter.buffSize)
    (routes : List (Bytes × Callback)) :
    (HttpRouter.ofRoutes routes).call parsed =
      HttpRouter.handled routes request.path parsed := by
  have hreturns := (hline.readsPath_iff HttpRouter.buffSize).mpr
    (pathReadable hlength hpath parsed)
  have htarget : Http.path HttpRouter.buffSize request.requestLine =
      some request.path := by
    rw [Http.path, target_requestLine]
    simp [Option.filter, hpath]
  exact HttpRouter.call_of_returns hpath nul_not_mem_path
    (htarget ▸ hreturns.returns)

/-- A connection has been served by the handlers of a router. -/
structure Routed (request : BodylessRequest)
    (routes : List (Bytes × Callback)) (final : HttpServContext) : Prop where
  ended : final.reading = 0 ∧ final.writing = 0 ∧ final.closes = 1 ∧
    final.deletes = 1
  answered : ∃ parsed calls response, final.requests = [parsed] ∧
    (∀ index, parsed.hdr index =
      (request.lines.map fun line => line.text)[index]?) ∧
    HttpRouter.handled routes request.path parsed = some calls ∧
    final.responses = [response] ∧
    ((∀ call ∈ calls, call.Fits) →
      bufferBytes response = calls.flatMap WriterCall.bytes)

/-- A request without a body that the buffer holds is answered, in whatever
pieces it arrives, by the handler registered last for its path, which sees the
lines of the request; its calls of the writer that fit are sent one behind the
other, and the connection is closed and deleted once. -/
theorem request_routed (request : BodylessRequest)
    (hstatus : statusOf request.requestLine ≠ 200)
    (hshort : request.wire.length < 1022)
    (hpath : request.path.length < HttpRouter.buffSize)
    (routes : List (Bytes × Callback))
    (hdefined : ∀ req, (HttpRouter.handled routes request.path req).isSome)
    (memory : ℕ → UInt8) (fsm : HttpFSM)
    (reads : List HttpServContext.Reading)
    (hslices : ∀ read ∈ reads, read.1 ≠ [] ∧ [] ∉ read.1)
    (hwire : (HttpServContext.Reading.slices reads).flatten = request.wire) :
    ∃ final,
      exec (HttpServContext.step (HttpRouter.ofRoutes routes).call)
          (HttpServContext.accept memory fsm)
          (HttpServContext.Reading.actions reads ++ [.written]) =
        some final ∧
      Routed request routes final := by
  obtain ⟨hrequest, hline, hhdr⟩ :=
    @parsed_of_short request memory fsm hshort hstatus
  have hlength : request.requestLine.length < 2 ^ 16 := by
    have hfirst := request.length_requestLine_le
    omega
  have hsome : reads ≠ [] := by
    rintro rfl
    exact request.wire_ne_nil hwire.symm
  generalize hparsed : (fsm.reset HttpServContext.chunkSize memory).receive
    request.wire = parsed at hline hhdr
  have hcall := call_of_firstLine hline hlength hpath routes
  have hinside : ∀ stored ∈
      (fsm.reset HttpServContext.chunkSize memory).storesAll
        ([] ++ HttpServContext.Reading.slices reads), stored.InBounds := by
    apply HttpFSM.inBounds_of_short (by decide) (by decide)
    rw [List.nil_append, hwire]
    exact hshort
  obtain ⟨written, hexec, hreceived, hwriting⟩ :=
    (HttpServContext.serving_accept memory fsm).exec_reads (Nat.succ_ne_zero 0)
      rfl hsome hslices hinside
      (by rw [← hwire] at hrequest; exact hrequest)
      (by
        have hall : ([] ++ HttpServContext.Reading.slices reads).flatten =
          request.wire := hwire
        change ((HttpRouter.ofRoutes routes).call
          ((fsm.reset HttpServContext.chunkSize memory).receive
            ([] ++ HttpServContext.Reading.slices reads).flatten)).isSome
        rw [hall, hparsed, hcall]
        exact hdefined parsed)
  have hrun : exec (HttpServContext.step (HttpRouter.ofRoutes routes).call)
      (HttpServContext.accept memory fsm)
      (HttpServContext.Reading.actions reads ++ [.written]) =
        some { written with writing := 0 }.close := by
    refine exec_append_eq_some.mpr ⟨written, hexec, ?_⟩
    apply exec_cons_eq_some.mpr
    refine ⟨_, ?_, rfl⟩
    rw [HttpServContext.step, hwriting]
    rfl
  have hserved := HttpServContext.serving_exec hrun
  have hone := hserved.outstanding
  have hclosed := hserved.closed
  have hrequests : written.requests = [parsed] := by
    have hall : written.received.flatten = request.wire := by
      rw [hreceived]
      exact hwire
    refine hserved.parsed.trans ?_
    change HttpServContext.requestsIn _ written.received.flatten = _
    rw [hall, HttpServContext.requestsIn_of_finish hrequest.finishes, hparsed]
  have hanswered := hserved.answered
  change List.Forall₂ _ written.requests written.responses at hanswered
  rw [hrequests] at hanswered
  obtain ⟨response, more, ⟨frames, calls, hcalls, rfl⟩, hmore, hresponses⟩ :=
    List.forall₂_cons_left_iff.mp hanswered
  obtain rfl := List.forall₂_nil_left_iff.mp hmore
  refine ⟨_, hrun, ?_, parsed, calls, _, hrequests, hhdr,
    hcall.symm.trans hcalls, hresponses,
    fun hfits => bufferBytes_writeCalls frames hfits []⟩
  have hdeletes : 0 < ({ written with writing := 0 }.close).deletes :=
    Nat.succ_pos _
  dsimp only [HttpServContext.close] at hone hclosed hdeletes ⊢
  omega

private def greeting : BodylessRequest where
  ending := crlf
  lineEnd := lineEnd_crlf
  method := ascii "HEAD"
  method_nonempty := by decide
  letters := List.all_eq_true.mp rfl
  target := ascii "/hello"
  visible := by decide
  slash := rfl
  version := ascii "HTTP/1.0"
  version_eq := .inl rfl
  headers := [⟨ascii "Accept: */*", by decide, by decide⟩]
  count := by decide
  bodiless := by decide

private def say (text : Bytes) : Callback := fun _ => some [.writeBody text]

/-- Two handlers for one path, and one for another. -/
private def greetings : List (Bytes × Callback) :=
  [(ascii "hello", say (ascii "hi")), (ascii "hello", say (ascii "welcome")),
    (ascii "bye", say (ascii "bye"))]

/-- A request in three slices and two reads is answered by the second of the
two handlers for its path. -/
theorem request_routed_greeting : ∃ final,
    exec (HttpServContext.step (HttpRouter.ofRoutes greetings).call)
        (HttpServContext.accept (fun _ => 0) HttpFSM.blank)
        (HttpServContext.Reading.actions
            [([ascii "HEAD /hel", ascii "lo HTTP/1.0\r\nAcc"], fun _ _ _ => 0),
              ([ascii "ept: */*\r\n\r\n"], fun _ _ _ => 0)] ++
          [.written]) = some final ∧
      Routed greeting greetings final ∧
      final.responses.map bufferBytes = [ascii "welcome"] := by
  obtain ⟨final, hrun, hrouted⟩ := request_routed greeting (by decide)
    (by decide) (by decide) greetings (fun _ => rfl) (fun _ => 0)
    HttpFSM.blank
    [([ascii "HEAD /hel", ascii "lo HTTP/1.0\r\nAcc"], fun _ _ _ => 0),
      ([ascii "ept: */*\r\n\r\n"], fun _ _ _ => 0)]
    (by decide) (by decide)
  refine ⟨final, hrun, hrouted, ?_⟩
  obtain ⟨parsed, calls, response, -, -, hcalls, hresponses, hbytes⟩ :=
    hrouted.answered
  obtain rfl : [.writeBody (ascii "welcome")] = calls := Option.some.inj hcalls
  rw [hresponses, List.map_singleton,
    hbytes (List.forall_mem_singleton.mpr trivial)]
  rfl

end BodylessRequest

end GrpcMtk.Http
