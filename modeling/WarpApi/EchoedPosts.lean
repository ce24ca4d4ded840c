import WarpApi.ServedConnections

/-!
The benchmark service and its clients. Every client posts bodies of its own on its own
connection and reads them back, one after the other, from an io_uring worker that serves
all of them.
-/
namespace WarpApi

/-- A post for /apibenchmark with something to send back. -/
structure BenchmarkPost (settings : SettingsData) extends PlainRequest settings where
  method_eq : method = ascii "POST"
  path_eq : path = ascii "/apibenchmark"
  body_ne : body ≠ []
  size_lt : toPlainRequest.bytes.length < 2 ^ 64

namespace BenchmarkPost

def complete {settings : SettingsData} (p : BenchmarkPost settings) : CompleteRequest settings :=
  p.toPlainRequest.complete p.size_lt

/-- What the client is to read. -/
def echo {settings : SettingsData} (p : BenchmarkPost settings) : Bytes :=
  (Session.openResponse true).serialise p.body

variable {server : Server} (p : BenchmarkPost server.settings)

theorem route_eq : HttpRequest.parseMethod p.method = .post ∧ p.path = ascii "/apibenchmark" := by
  rw [p.method_eq]
  exact ⟨by decide, p.path_eq⟩

theorem minRequestSize_le : minRequestSize ≤ p.complete.bytes.length := by
  have hle := p.toPlainRequest.minRequestSize_le []
  rwa [List.append_nil] at hle

theorem selfContained {bit : ℕ} (hbit : upgradeMask.testBit bit = true)
    (hroute : server.endpoints.getEndpoint .post (ascii "/apibenchmark") =
      some ⟨ascii "/apibenchmark", .post, bodyHandler fun request => request.data.body⟩) :
    p.complete.SelfContained server bit :=
  p.toPlainRequest.selfContained_echo hbit hroute p.route_eq p.body_ne p.size_lt

theorem answer_complete (hroute : server.endpoints.getEndpoint .post (ascii "/apibenchmark") =
      some ⟨ascii "/apibenchmark", .post, bodyHandler fun request => request.data.body⟩) :
    p.complete.answer server = p.echo :=
  p.toPlainRequest.answer_echo hroute p.route_eq p.body_ne p.size_lt

theorem flatMap_answer_complete
    (hroute : server.endpoints.getEndpoint .post (ascii "/apibenchmark") =
      some ⟨ascii "/apibenchmark", .post, bodyHandler fun request => request.data.body⟩)
    (ps : List (BenchmarkPost server.settings)) :
    (ps.map complete).flatMap (CompleteRequest.answer server) = ps.flatMap echo := by
  rw [List.flatMap_map]
  exact List.flatMap_congr fun p _ => p.answer_complete hroute

end BenchmarkPost

/-- Clients of the benchmark service on one io_uring worker, while no two sends overlap:
each of them has read a beginning of its own bodies in their order, and as many answers
have been written as complete posts have been received. -/
theorem uring_echoes (texts : JsonTexts) (tables : EndpointManager) (server : Server)
    (hserver : EndpointManager.registerAll (generalServices texts) tables =
      (true, server.endpoints))
    (posts : SessionId → List (BenchmarkPost server.settings)) (entries : ℕ) (es : List Event)
    (w : Worker)
    (hg : Runs.Guarded (Worker.step server) (Worker.Meets fun ring e v => NoOverlap ring e v ∧
      View.Fed server (fun sid => (posts sid).map BenchmarkPost.complete) ring e v)
      (Worker.init entries) es)
    (hrun : Runs.run (Worker.step server) (Worker.init entries) es = some w) (sid : SessionId) :
    w.wire sid <+: (posts sid).flatMap BenchmarkPost.echo ∧
      ∀ s, w.pool sid = some s → ∃ done left rest,
        Cut (fun p => p.complete.bytes) (posts sid) s.readBuffer.written done left rest ∧
          s.writeBuffer.written = done.flatMap BenchmarkPost.echo := by
  have hroute := EndpointManager.getEndpoint_constructed hserver
    (e := ⟨ascii "/apibenchmark", .post, bodyHandler fun request => request.data.body⟩)
    (by simp [generalServices])
  have hbit : upgradeMask.testBit 10 = true := by decide
  have hview := servedView_of_run hbit
    (fun sid => List.forall_mem_map.mpr fun p _ => p.selfContained hbit hroute)
    (fun sid => List.forall_mem_map.mpr fun p _ => p.minRequestSize_le) hg hrun sid
  refine ⟨?_, fun s hs => ?_⟩
  · rw [← BenchmarkPost.flatMap_answer_complete hroute]
    exact hview.wire
  · obtain ⟨done, left, rest, hcut, hdone⟩ := hview.ruled.holds s hs
    obtain ⟨done', left', rfl, hcut'⟩ := hcut.of_map
    refine ⟨done', left', rest, hcut', ?_⟩
    rw [hdone.written, BenchmarkPost.flatMap_answer_complete hroute]

def echoedHi : BenchmarkPost (generalServiceOn .ioUring).settings :=
  ⟨hiPost, rfl, rfl, hiPost_body_ne, length_hiPost⟩

theorem uring_echoes_hi :
    ∃ w, Runs.run (Worker.step (generalServiceOn .ioUring)) (Worker.init 8) cutPostEvents =
        some w ∧ (w.wire 0).length = 60 ∧
      w.wire 0 <+: (Session.openResponse true).serialise (ascii "hi") := by
  have hserver : EndpointManager.registerAll (generalServices
      ⟨ascii "{}", fun _ => .error (ascii "no JSON"), ascii "{}", ascii "{}"⟩)
      EndpointManager.init = (true, (generalServiceOn .ioUring).endpoints) := Prod.ext rfl rfl
  obtain ⟨w, hrun, hlength⟩ := run_cutPostEvents
  refine ⟨w, hrun, hlength, ?_⟩
  obtain ⟨hwire, -⟩ := uring_echoes _ EndpointManager.init (generalServiceOn .ioUring) hserver
    (fun _ => [echoedHi]) 8 cutPostEvents w apart_cutPostEvents hrun 0
  rwa [List.flatMap_singleton] at hwire

end WarpApi
