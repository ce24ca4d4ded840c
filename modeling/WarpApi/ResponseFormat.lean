import WarpApi.Response
import WarpApi.Session
import WarpApi.Library.HttpMessage

/-!
What a client reads from a serialised response. The name of a header line is
looked up at the index of the enumerator's bit, `HeaderStrings[1 << bit]`, so the
lines carry the names of other headers: Content-Length is printed as User-Agent.
-/
namespace WarpApi

namespace HttpResponse

/-- The header lines as they are printed, the length line last. -/
def printedFields (r : HttpResponse) (body : Bytes) : List (Bytes × Bytes) :=
  ((r.activeHeaders.filter (· ≠ .contentLength)).map fun key => (headerString key, r.header key)) ++
    [(headerString .contentLength, fastItoa 24 body.length)]

theorem serialise_eq (r : HttpResponse) (body : Bytes) :
    r.serialise body =
      HttpMessage.head r.version (getStatusString r.status) (r.printedFields body) ++ body := by
  have hlines : (r.activeHeaders.flatMap fun key =>
        if key = .contentLength then []
        else [headerString key, ascii ": ", r.header key, crlf]).flatten =
      ((r.activeHeaders.filter (· ≠ .contentLength)).map fun key =>
        (headerString key, r.header key)).flatMap HttpMessage.fieldLine := by
    generalize r.activeHeaders = keys
    induction keys with
    | nil => rfl
    | cons key keys ih =>
      by_cases hkey : key = .contentLength
      · simpa [hkey] using ih
      · have hsep : ascii ": " = [58, 32] := by decide
        have hcrlf : crlf = HttpMessage.crlf := rfl
        simpa [hkey, HttpMessage.fieldLine, hsep, hcrlf] using ih
  have hspace : ascii " " = [32] := by decide
  have hsep : ascii ": " = [58, 32] := by decide
  have hcrlf : crlf = HttpMessage.crlf := rfl
  unfold serialise pieces
  rw [List.flatten_append, List.flatten_append, hlines]
  simp only [printedFields, HttpMessage.head, HttpMessage.fieldLine, hspace, hsep, hcrlf,
    List.flatten_cons, List.flatten_nil, List.append_nil, List.flatMap_append, List.flatMap_cons,
    List.flatMap_nil, List.append_assoc]

end HttpResponse

theorem cr_notMem_decimal (n : ℕ) : 13 ∉ decimal n := by
  rw [decimal_eq_numeral]
  intro hmem
  exact absurd (DecimalNumeral.isDigit_of_mem_numeral hmem) (by decide)

theorem cr_notMem_fastItoa (len n : ℕ) : 13 ∉ fastItoa len n := by
  unfold fastItoa
  split
  · exact cr_notMem_decimal n
  · exact List.not_mem_nil

theorem headerString_plain (key : HeaderType) : 13 ∉ headerString key ∧ 58 ∉ headerString key := by
  cases key <;> decide

theorem cr_notMem_getStatusString (status : ℤ) : 13 ∉ getStatusString status := by
  have htable : ∀ entry ∈ statusStrings, 13 ∉ entry.2 := by decide +kernel
  unfold getStatusString
  split
  · rename_i heq
    exact htable _ (List.mem_of_find?_eq_some heq)
  · decide

/-- A response as a handler puts it together: headers under distinct names of
HEADER_LIST, the length excepted, and values that fit on a line. -/
structure ResponseInput where
  version : Bytes
  status : ℤ
  headers : List (HeaderType × Bytes)
  body : Bytes
  status_known : status ∈ statusStrings.map Prod.fst
  keys_nodup : (headers.map Prod.fst).Nodup
  keys_listed : ∀ h ∈ headers, h.1 ∈ headerList.map Prod.fst ∧ h.1 ≠ .contentLength
  values_plain : ∀ h ∈ headers, h.2 ≠ [] ∧ cr ∉ h.2 ∧ lf ∉ h.2

namespace ResponseInput

def response (input : ResponseInput) : HttpResponse :=
  input.headers.foldl (fun r h => r.addHeader h.1 h.2)
    ((HttpResponse.init.setVersion input.version).setStatus input.status)

/-- A client reads these bytes as the response that was put together. -/
structure ReadsBack (input : ResponseInput) (m : HttpMessage.Message) : Prop where
  version : m.version = input.version
  status : m.status = getStatusString input.status
  header : ∀ h ∈ input.headers, ∃ f ∈ m.fields, HttpMessage.sameName f.1 h.1.httpName ∧ f.2 = h.2
  length : ∃ f, m.fields.filter HttpMessage.isContentLength = [f] ∧
    HttpMessage.readNumber f.2 = some input.body.length
  body : m.body = input.body

end ResponseInput

/-- A response whose keys come from a list and whose values stay on a line. -/
structure BuiltFrom (keys : List HeaderType) (version : Bytes) (status : ℤ) (r : HttpResponse) :
    Prop where
  active : ∀ key ∈ r.activeHeaders, key ∈ keys
  plain : ∀ i, 13 ∉ r.headers i
  version_eq : r.version = version
  status_eq : r.status = status

theorem BuiltFrom.addHeader {keys : List HeaderType} {version : Bytes} {status : ℤ}
    {r : HttpResponse} (h : BuiltFrom keys version status r) (key : HeaderType) (value : Bytes)
    (hkey : key ∈ keys) (hvalue : 13 ∉ value) :
    BuiltFrom keys version status (r.addHeader key value) := by
  have hupdate : ∀ slot i, 13 ∉ Function.update r.headers slot value i := by
    intro slot i
    by_cases hi : i = slot
    · subst hi
      rwa [Function.update_self]
    · rw [Function.update_of_ne hi]
      exact h.plain i
  have hactive : ∀ k ∈ r.activeHeaders ++ [key], k ∈ keys := by
    intro k hk
    rcases List.mem_append.mp hk with hk | hk
    · exact h.active k hk
    · exact List.mem_singleton.mp hk ▸ hkey
  unfold HttpResponse.addHeader
  dsimp only
  split_ifs
  · exact ⟨hactive, hupdate _, h.version_eq, h.status_eq⟩
  · exact ⟨h.active, hupdate _, h.version_eq, h.status_eq⟩
  · exact ⟨h.active, hupdate _, h.version_eq, h.status_eq⟩
  · exact ⟨h.active, h.plain, h.version_eq, h.status_eq⟩

theorem ResponseInput.builtFrom (input : ResponseInput) :
    BuiltFrom (input.headers.map Prod.fst) input.version input.status input.response := by
  have hfold : ∀ (hs : List (HeaderType × Bytes)) (r : HttpResponse),
      (∀ h ∈ hs, h ∈ input.headers) →
      BuiltFrom (input.headers.map Prod.fst) input.version input.status r →
      BuiltFrom (input.headers.map Prod.fst) input.version input.status
        (hs.foldl (fun r h => r.addHeader h.1 h.2) r) := by
    intro hs
    induction hs with
    | nil => exact fun r _ h => h
    | cons h hs ih =>
      intro r hmem hr
      have hh := hmem h (List.mem_cons_self ..)
      exact ih _ (fun g hg => hmem g (List.mem_cons_of_mem _ hg))
        (hr.addHeader h.1 h.2 (List.mem_map_of_mem hh) (input.values_plain h hh).2.1)
  refine hfold input.headers _ (fun h hh => hh) ⟨?_, ?_, rfl, rfl⟩
  · exact fun key hkey => absurd hkey List.not_mem_nil
  · exact fun i => List.not_mem_nil

theorem HttpResponse.header_plain {r : HttpResponse} (h : ∀ i, 13 ∉ r.headers i)
    (key : HeaderType) : 13 ∉ r.header key := by
  unfold HttpResponse.header
  split
  · exact h _
  · exact List.not_mem_nil

theorem wellFormed_printedFields {r : HttpResponse} (h : ∀ i, 13 ∉ r.headers i) (body : Bytes) :
    ∀ f ∈ r.printedFields body, HttpMessage.WellFormedField f := by
  intro f hf
  rcases List.mem_append.mp hf with hf | hf
  · obtain ⟨key, -, rfl⟩ := List.mem_map.mp hf
    exact ⟨(headerString_plain key).1, (headerString_plain key).2, HttpResponse.header_plain h key⟩
  · rw [List.mem_singleton.mp hf]
    have hname := headerString_plain .contentLength
    exact ⟨hname.1, hname.2, cr_notMem_fastItoa _ _⟩

/-- A line with one of the names of HEADER_LIST is the line of the key whose index
hits that name, and the length line is the one of User-Agent. -/
theorem printed_name {r : HttpResponse} {body : Bytes} {f : Bytes × Bytes} {name : Bytes}
    (hf : f ∈ r.printedFields body) (hname : HttpMessage.sameName f.1 name)
    (hlength : ¬ HttpMessage.sameName (headerString .contentLength) name) :
    ∃ key ∈ r.activeHeaders, HttpMessage.sameName (headerString key) name := by
  rcases List.mem_append.mp hf with hf | hf
  · obtain ⟨key, hkey, rfl⟩ := List.mem_map.mp hf
    exact ⟨key, (List.mem_filter.mp hkey).1, hname⟩
  · rw [List.mem_singleton.mp hf] at hname
    exact absurd hname hlength

theorem key_of_contentLength_name (key : HeaderType)
    (h : HttpMessage.sameName (headerString key) HttpMessage.contentLengthName) :
    key = .contentType := by
  cases key <;> revert h <;> decide

theorem key_of_contentType_name (key : HeaderType)
    (h : HttpMessage.sameName (headerString key) HeaderType.contentType.httpName) :
    key = .server := by
  cases key <;> revert h <;> decide

theorem key_of_server_name (key : HeaderType)
    (h : HttpMessage.sameName (headerString key) HeaderType.server.httpName) : key = .none := by
  cases key <;> revert h <;> decide

/-- No response that `setBody` writes is read back: a line named Content-Length needs
the key of Content-Type, that needs the key of Server, and no key prints Server. -/
theorem response_never_readsBack (input : ResponseInput) (out : RingBuffer)
    (hroom : (input.response.serialise input.body).length ≤ out.free) :
    ¬ ∃ appended m, (input.response.setBody input.body out).written = out.written ++ appended ∧
      HttpMessage.read appended = some m ∧ input.ReadsBack m := by
  rintro ⟨appended, m, happended, hread, hback⟩
  have hbuilt := input.builtFrom
  rw [HttpResponse.setBody_eq_push, BoundedQueue.written_push_of_le _ _ hroom,
    List.append_cancel_left_eq] at happended
  have hversion := HttpMessage.version_of_read hread
  rw [hback.version, ← hbuilt.version_eq] at hversion
  rw [← happended, HttpResponse.serialise_eq,
    HttpMessage.read_head_append _ _ _ _ hversion (cr_notMem_getStatusString _)
      (wellFormed_printedFields hbuilt.plain _), Option.map_eq_some_iff] at hread
  obtain ⟨body, -, rfl⟩ := hread
  -- each line that the client looks for has to be printed under some key
  have hfind : ∀ key ∈ input.headers.map Prod.fst,
      ¬ HttpMessage.sameName (headerString .contentLength) key.httpName →
      ∃ k ∈ input.headers.map Prod.fst, HttpMessage.sameName (headerString k) key.httpName := by
    intro key hkey hne
    obtain ⟨h, hh, rfl⟩ := List.mem_map.mp hkey
    obtain ⟨f, hf, hname, -⟩ := hback.header h hh
    obtain ⟨k, hk, hkname⟩ := printed_name hf hname hne
    exact ⟨k, hbuilt.active k hk, hkname⟩
  have htype : HeaderType.contentType ∈ input.headers.map Prod.fst := by
    obtain ⟨f, hf, -⟩ := hback.length
    have hmem : f ∈ (input.response.printedFields input.body).filter HttpMessage.isContentLength :=
      hf ▸ List.mem_singleton_self f
    obtain ⟨hmem, hname⟩ := List.mem_filter.mp hmem
    obtain ⟨k, hk, hkname⟩ := printed_name hmem hname (by decide)
    exact key_of_contentLength_name k hkname ▸ hbuilt.active k hk
  have hserver : HeaderType.server ∈ input.headers.map Prod.fst := by
    obtain ⟨k, hk, hkname⟩ := hfind _ htype (by decide)
    exact key_of_contentType_name k hkname ▸ hk
  obtain ⟨k, hk, hkname⟩ := hfind _ hserver (by decide)
  have hnone := key_of_server_name k hkname ▸ hk
  obtain ⟨h, hh, hkey⟩ := List.mem_map.mp hnone
  have hlisted := (input.keys_listed h hh).1
  rw [hkey] at hlisted
  exact absurd hlisted (by decide)

def sampleInput : ResponseInput where
  version := httpVersion
  status := 200
  headers := [(.server, ascii "warp"), (.contentType, ascii "text/plain")]
  body := ascii "hello"
  status_known := by decide
  keys_nodup := by decide
  keys_listed := by decide
  values_plain := by decide

theorem sample_response_never_readsBack :
    ¬ ∃ appended m,
      (sampleInput.response.setBody sampleInput.body (BoundedQueue.empty 200)).written =
        [] ++ appended ∧ HttpMessage.read appended = some m ∧ sampleInput.ReadsBack m :=
  response_never_readsBack sampleInput (BoundedQueue.empty 200) (by decide +kernel)

/-- The type is printed as a length that is no number, and the length as User-Agent. -/
theorem sample_response_unreadable :
    (sampleInput.response.setBody sampleInput.body (BoundedQueue.empty 200)).written =
        ascii ("HTTP/1.1 200 OK\r\nContent-Type: warp\r\nContent-Length: text/plain\r\n" ++
          "User-Agent: 5\r\n\r\nhello") ∧
      ∀ m, HttpMessage.read
        (sampleInput.response.setBody sampleInput.body (BoundedQueue.empty 200)).written = some m →
          ¬ sampleInput.ReadsBack m := by
  have hread : HttpMessage.read
      (sampleInput.response.setBody sampleInput.body (BoundedQueue.empty 200)).written = none := by
    decide +kernel
  refine ⟨by decide +kernel, fun m hm => ?_⟩
  rw [hread] at hm
  exact absurd hm (by simp)

end WarpApi
