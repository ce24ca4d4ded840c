import WarpApi.HandleRequest
import WarpApi.HeaderPointers

/-!
The loop over the requests in the read buffer. Where the largest body and the buffer
together stay below 2^64, an attempt takes nothing or at least one byte and at most what
is there, so the loop ends after at most as many turns as there are bytes.
-/
namespace WarpApi

/-- So many turns of `while (parseRequest()) handleRequest();`. -/
inductive Turns (server : Server) : ℕ → Session → Session → Prop
  | none (s : Session) : Turns server 0 s s
  | turn {n : ℕ} {s seen t : Session}
      (hattempt : s.attemptRequest server.settings = (true, seen))
      (hrest : Turns server n (seen.handleRequest server) t) : Turns server (n + 1) s t

/-- The largest body and a full read buffer do not wrap around. -/
def NoWrap (settings : SettingsData) (s : Session) : Prop :=
  settings.maxBodySize.toNat + s.readBuffer.capacity < 2 ^ 64

variable {settings : SettingsData} {s t : Session}

theorem NoWrap.unread (h : NoWrap settings s) :
    settings.maxBodySize.toNat + s.readBuffer.unread.length < 2 ^ 64 := by
  have hsize := s.readBuffer.size_le_capacity
  unfold NoWrap at h
  rw [BoundedQueue.length_unread]
  omega

/-- A successful attempt leaves fewer bytes than there were. -/
theorem attemptRequest_progress (hroom : NoWrap settings s)
    (hattempt : s.attemptRequest settings = (true, t)) :
    t.readBuffer.size < s.readBuffer.size ∧ NoWrap settings t := by
  obtain ⟨out, -, hshown, hprogress⟩ := parsePtr_spec settings s.readBuffer.unread
  cases hconsumed : (parseBytes settings s.readBuffer.unread s.req s.keepAlive).consumed with
  | none =>
    rw [Session.attemptRequest_of_none hconsumed] at hattempt
    simp at hattempt
  | some n =>
    rw [Session.attemptRequest_of_some hconsumed] at hattempt
    have ht := congrArg Prod.snd hattempt
    dsimp only at ht
    rw [hshown] at hconsumed
    obtain ⟨hpos, hle, -⟩ := hprogress hroom.unread n (out.consumed_of_shown hconsumed)
    rw [BoundedQueue.length_unread] at hle
    rw [← ht]
    exact ⟨by rw [BoundedQueue.size_advance]; omega, hroom⟩

theorem turn_progress (server : Server) (hroom : NoWrap server.settings s)
    (hattempt : s.attemptRequest server.settings = (true, t)) :
    (t.handleRequest server).readBuffer.size < s.readBuffer.size ∧
      NoWrap server.settings (t.handleRequest server) := by
  have hbuffer := (Answers.handleRequest server t).readBuffer_eq
  obtain ⟨hlt, hroom'⟩ := attemptRequest_progress hroom hattempt
  unfold NoWrap at *
  rw [hbuffer]
  exact ⟨hlt, hroom'⟩

theorem Turns.le_size {server : Server} {n : ℕ} (hturns : Turns server n s t)
    (hroom : NoWrap server.settings s) : n ≤ s.readBuffer.size := by
  induction hturns with
  | none s => exact Nat.zero_le _
  | turn hattempt hrest ih =>
    obtain ⟨hlt, hroom'⟩ := turn_progress server hroom hattempt
    have hle := ih hroom'
    omega

theorem parseLoop_ends (server : Server) (turns : ℕ) (hroom : NoWrap server.settings s)
    (hturns : s.readBuffer.size < turns) :
    ∃ t, s.parseLoop server.settings (Session.handleRequest server) turns = some t := by
  induction turns generalizing s with
  | zero => omega
  | succ turns ih =>
    rw [Session.parseLoop]
    cases hattempt : s.attemptRequest server.settings with
    | mk accepted seen =>
      cases accepted with
      | false => exact ⟨seen, rfl⟩
      | true =>
        obtain ⟨hlt, hroom'⟩ := turn_progress server hroom hattempt
        exact ih hroom' (by omega)

/-- What an attempt and the loop read and take. `parsePtr` has no result when a read leaves
the received bytes; the views are those that it stores. -/
structure ReadsInside (server : Server) (s : Session) : Prop where
  reads : ∃ out, parsePtr server.settings s.readBuffer.unread = some out ∧
    (s.parseRequest server.settings).2.req =
      (out.shown s.readBuffer.unread s.req s.keepAlive).req ∧
    ∀ t, s.parseRequest server.settings = (true, t) →
      ∃ n, 0 < n ∧ n ≤ s.readBuffer.size ∧ t.readBuffer = s.readBuffer.advance n ∧
        ∀ v ∈ out.views, v.Inside n
  refused : ∀ t, s.parseRequest server.settings = (false, t) → t.readBuffer = s.readBuffer
  turns : ∀ n t, Turns server n s t → n ≤ s.readBuffer.size
  ends : ∃ t, s.drain server.settings (Session.handleRequest server) = some t

/-- No read of an attempt leaves the received bytes; it takes nothing, or at least one byte
with all views inside what it takes; and the loop makes at most as many turns as there are
bytes. -/
theorem parseRequest_inside (server : Server) (s : Session) (hroom : NoWrap server.settings s) :
    ReadsInside server s := by
  obtain ⟨out, hparse, hshown, hprogress⟩ := parsePtr_spec server.settings s.readBuffer.unread
  constructor
  · refine ⟨out, hparse, ?_, fun t ht => ?_⟩
    · rw [(s.parseRequest_fields server.settings).1, hshown]
    · obtain ⟨n, hn, rfl⟩ := Session.parseRequest_eq_true ht
      rw [hshown] at hn
      obtain ⟨hpos, hle, hviews⟩ := hprogress hroom.unread n (out.consumed_of_shown hn)
      rw [BoundedQueue.length_unread] at hle
      exact ⟨n, hpos, hle, rfl, hviews⟩
  · intro t ht
    obtain ⟨-, rfl⟩ := Session.parseRequest_eq_false ht
    rfl
  · intro n t hturns
    exact hturns.le_size hroom
  · exact parseLoop_ends server _ hroom (Nat.lt_succ_self _)

def twoRequests : Bytes := ascii "GET / HTTP/1.1\r\n\r\nPUT /a?b HTTP/1.1\r\n\r\n"

theorem twoRequests_inside :
    ReadsInside (bareServer .epoll) (receiving configJson twoRequests) :=
  parseRequest_inside (bareServer .epoll) (receiving configJson twoRequests)
    (by unfold NoWrap; decide +kernel)

end WarpApi
