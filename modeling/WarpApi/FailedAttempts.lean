import WarpApi.HeaderLines

/-!
What a failed attempt of `parseRequest` leaves behind. The request line and every header
line are stored as soon as they are read, and the flag is set back to true in front of
the header lines, so an attempt that gives up later leaves no trace only where the
session holds all of that already.
-/
namespace WarpApi

open LastWrite

/-- The session holds what the request line and the lines taken would store. -/
structure AlreadyStored (lines : List Bytes) (line : RequestLine) (s : Session) : Prop where
  method : s.req.data.method = HttpRequest.parseMethod line.method
  path : s.req.data.path = line.path
  query : s.req.data.query = line.query
  version : s.req.data.version = line.version
  flag : s.keepAlive = ((lines.filterMap connectionChoice).getLast?).getD true
  slots : ∀ slot value, lastValue slot (slotWrites lines) = some value →
    s.req.data.headers slot = value
  mask : ∀ l ∈ lines, hasHeader s.req.presentHeaders (headerOf l).1.val = true
  indices : ∀ l ∈ lines, (headerOf l).1.hasSlot = true

/-- The bytes do not get to a request line, or nothing is stored that is not there. -/
def LeavesNoTrace (settings : SettingsData) (s : Session) : Prop :=
  match startLine s.readBuffer.unread with
  | none => True
  | some line => AlreadyStored (takenLines settings s.readBuffer.unread) line s

theorem foldl_storeField_eq_iff (lines : List Bytes) (line : RequestLine) (req : HttpRequest) :
    lines.foldl storeField (startScan req line).req = req ↔
      (req.data.method = HttpRequest.parseMethod line.method ∧ req.data.path = line.path ∧
        req.data.query = line.query ∧ req.data.version = line.version) ∧
      (∀ slot value, lastValue slot (slotWrites lines) = some value →
        req.data.headers slot = value) ∧
      (∀ l ∈ lines, hasHeader req.presentHeaders (headerOf l).1.val = true) ∧
      ∀ l ∈ lines, (headerOf l).1.hasSlot = true := by
  have hview := view_foldl_storeField lines (startScan req line).req
  simp only [HttpRequest.view, RequestView.mk.injEq] at hview
  obtain ⟨hmethod, hpath, hquery, hversion, hbody⟩ := hview
  have hslot := headers_foldl lines (startScan req line).req
  have hmask := presentHeaders_foldl_eq_iff lines (startScan req line).req
  have hstray := (strayWrites_foldl lines (startScan req line).req).2
  have hparams := queryParams_foldl lines (startScan req line).req
  have hsize := data_foldl RequestData.bodySize (fun _ _ => rfl) lines (startScan req line).req
  constructor
  · intro heq
    rw [heq] at hmethod hpath hquery hversion hslot hmask hstray
    refine ⟨⟨hmethod, hpath, hquery, hversion⟩, ?_, hmask.mp rfl, hstray.mp rfl⟩
    intro slot value hvalue
    rw [hslot, hvalue, Option.getD_some]
  · rintro ⟨⟨hm, hp, hq, hv⟩, hslots, hset, hindices⟩
    have hheaders : (lines.foldl storeField (startScan req line).req).data.headers =
        req.data.headers := by
      funext slot
      rw [hslot]
      cases hvalue : lastValue slot (slotWrites lines) with
      | none => rfl
      | some value => exact (hslots slot value hvalue).symm
    have hmask' := hmask.mpr hset
    have hstray' := hstray.mpr hindices
    generalize lines.foldl storeField (startScan req line).req = after at *
    obtain ⟨⟨method, path, query, version, body, size, headers, params⟩, mask, strays⟩ := after
    obtain ⟨⟨method', path', query', version', body', size', headers', params'⟩, mask',
      strays'⟩ := req
    dsimp only [startScan, HttpRequest.setMethod, HttpRequest.setPath, HttpRequest.setVersion] at *
    subst hmethod hpath hquery hversion hbody hsize hheaders hparams hmask' hstray' hm hp hq hv
    rfl

/-- A failed attempt leaves the session as it was exactly when it stores nothing new. -/
theorem parseRequest_unchanged_iff (settings : SettingsData) (s t : Session)
    (h : s.parseRequest settings = (false, t)) : t = s ↔ LeavesNoTrace settings s := by
  obtain ⟨hconsumed, rfl⟩ := Session.parseRequest_eq_false h
  unfold LeavesNoTrace
  cases hstart : startLine s.readBuffer.unread with
  | none =>
    rw [parseBytes_of_startLine_none hstart]
    exact ⟨fun _ => trivial, fun _ => rfl⟩
  | some line =>
    obtain ⟨hkeep, hreq⟩ := parseBytes_of_startLine settings hstart s.req s.keepAlive
    have hreq := hreq.resolve_right fun hbody => hbody.1 hconsumed
    rw [hkeep, hreq, keepAlive_foldl]
    have hfold := foldl_storeField_eq_iff (takenLines settings s.readBuffer.unread) line s.req
    constructor
    · intro heq
      have hsame := congrArg Session.req heq
      obtain ⟨⟨hm, hp, hq, hv⟩, hslots, hset, hindices⟩ := hfold.mp hsame
      exact ⟨hm, hp, hq, hv, (congrArg Session.keepAlive heq).symm, hslots, hset, hindices⟩
    · intro hstored
      have hsame := hfold.mpr ⟨⟨hstored.method, hstored.path, hstored.query, hstored.version⟩,
        hstored.slots, hstored.mask, hstored.indices⟩
      rw [linesRequest, hsame, ← hstored.flag]

def hostBegun : Bytes := ascii "GET / HTTP/1.1\r\nHost"

/-- The second attempt on the same bytes finds everything stored. -/
theorem second_attempt_unchanged :
    (((receiving configJson hostBegun).parseRequest configJson).2.parseRequest configJson).2 =
      ((receiving configJson hostBegun).parseRequest configJson).2 := by
  have hstart : startLine
      ((receiving configJson hostBegun).parseRequest configJson).2.readBuffer.unread =
      some ⟨ascii "GET", ascii "/", [], httpVersion⟩ := by decide +kernel
  have hlines : takenLines configJson
      ((receiving configJson hostBegun).parseRequest configJson).2.readBuffer.unread = [] := by
    decide +kernel
  refine (parseRequest_unchanged_iff configJson _ _ (Prod.ext (by decide +kernel) rfl)).mpr ?_
  unfold LeavesNoTrace
  rw [hstart, hlines]
  exact ⟨by decide +kernel, by decide +kernel, by decide +kernel, by decide +kernel,
    by decide +kernel, fun slot value h => by simp [slotWrites] at h,
    fun l hl => absurd hl List.not_mem_nil, fun l hl => absurd hl List.not_mem_nil⟩

/-- The first attempt sets the flag, which may be that of an earlier request. -/
theorem first_attempt_sets_flag :
    ((receiving configJson hostBegun).parseRequest configJson).1 = false ∧
      ((receiving configJson hostBegun).parseRequest configJson).2 ≠
        receiving configJson hostBegun := by
  refine ⟨by decide +kernel, fun h => ?_⟩
  have hflag := congrArg Session.keepAlive h
  exact absurd hflag (by decide +kernel)

end WarpApi
