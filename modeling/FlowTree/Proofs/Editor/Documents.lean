import FlowTree.Editor.Session
import Mathlib.Data.List.Basic

/-!
The documents of a session. What a session knows of a document is what the editor last said of it: an opened text or a new
whole text puts the document of that text in its place, and closing it takes the document away. Requests about other
documents, and requests that fail, leave it as it is.
-/

namespace FlowTree.Editor

/-- A request, and the files as they are when it comes. -/
structure Call where
  disk : Text → Except FileError Text
  request : Request

namespace Request

/-- The document that a request is about. -/
def uri? : Request → Option String
  | .begin | .notice => none
  | .opened uri _ | .changed uri _ | .closed uri | .symbols uri | .highlights uri => some uri

def asks (uri : String) : Request → Bool
  | .symbols other | .highlights other => other = uri
  | _ => false

/-- The request tells the text that the document has from now on, or that it is closed. Of several changes the last one of
the whole text counts, and changes of any other form tell nothing. -/
inductive Tells (uri : String) : Request → Option Text → Prop where
  | opened (text : Text) : Tells uri (.opened uri text) (some text)
  | changed {before after : List Change} (text : Text) (rest : ∀ c ∈ after, c = .other) :
      Tells uri (.changed uri (before ++ .whole text :: after)) (some text)
  | closed : Tells uri (.closed uri) none

theorem Tells.about {uri : String} {r : Request} {text? : Option Text} (h : r.Tells uri text?) : r.uri? = some uri := by
  cases h <;> rfl

theorem about_of_asks {uri : String} {r : Request} (h : r.asks uri = true) : r.uri? = some uri := by
  cases r <;> simp_all [asks, uri?]

end Request

namespace Session

def run (s : Session) (calls : List Call) : Session :=
  calls.foldl (fun s c => (s.handle c.disk c.request).session) s

/-- What the editor is told during calls. -/
def told (s : Session) : List Call → List Publication
  | [] => []
  | c :: calls => (s.handle c.disk c.request).published ++ (s.handle c.disk c.request).session.told calls

/-- Requests about a document are answered from the given one. -/
structure AnswersFrom (s : Session) (disk : Text → Except FileError Text) (uri : String) (d : Document) : Prop where
  symbols : (s.handle disk (.symbols uri)).reply = .ok (.symbols d.symbols)
  highlights : (s.handle disk (.highlights uri)).reply =
    .ok (.highlights (encodeHighlights {} ((d.program?.map FlowTree.Editor.highlights).getD [])))

variable {s : Session} {disk : Text → Except FileError Text} {r : Request} {uri : String} {path : Text}

theorem run_append (s : Session) (earlier later : List Call) : s.run (earlier ++ later) = (s.run earlier).run later :=
  List.foldl_append

theorem told_append (s : Session) (earlier later : List Call) :
    s.told (earlier ++ later) = s.told earlier ++ (s.run earlier).told later := by
  induction earlier generalizing s with
  | nil => rfl
  | cons c earlier ih => simp [told, run, ih]

@[simp] theorem document?_put_self (s : Session) (d : Document) : (s.put d).document? d.uri = some d := by
  simp [document?, put]

@[simp] theorem document?_forget_self (s : Session) (uri : String) : (s.forget uri).document? uri = none := by
  rw [document?, forget, List.lookup_eq_none_iff]
  intro entry hentry
  have hne : entry.1 ≠ uri := by simpa using (List.mem_filter.mp hentry).2
  simpa using hne.symm

theorem lookup_filter_ne {α : Type} {key other : String} (hne : other ≠ key) (entries : List (String × α)) :
    (entries.filter (·.1 ≠ key)).lookup other = entries.lookup other := by
  induction entries with
  | nil => rfl
  | cons entry entries ih =>
    obtain ⟨k, a⟩ := entry
    by_cases hk : k = key
    · have hother : (other == k) = false := by simpa [hk] using hne
      rw [List.filter_cons_of_neg (by simpa using hk), List.lookup_cons, hother, ih]
    · rw [List.filter_cons_of_pos (by simpa using hk), List.lookup_cons, List.lookup_cons, ih]

theorem document?_forget_of_ne {other : String} (hne : uri ≠ other) : (s.forget other).document? uri = s.document? uri :=
  lookup_filter_ne hne s.documents

theorem document?_put_of_ne {d : Document} (hne : uri ≠ d.uri) : (s.put d).document? uri = s.document? uri := by
  have hother : (uri == d.uri) = false := by simpa using hne
  rw [document?, put, List.lookup_cons, hother]
  exact lookup_filter_ne hne s.documents

theorem uri_analyze (uri : String) (path text : Text) : (Document.analyze uri path text).uri = uri := by
  unfold Document.analyze
  simp only
  split <;> rfl

/-! ### One request -/

theorem lastWhole?_eq_some {before after : List Change} {text : Text} (rest : ∀ c ∈ after, c = .other) :
    lastWhole? (before ++ .whole text :: after) = some text := by
  refine List.findSome?_eq_some_iff.mpr ⟨after.reverse, .whole text, before.reverse, by simp, rfl, fun c hc => ?_⟩
  rw [rest c (List.mem_reverse.mp hc)]

theorem exists_of_lastWhole? {changes : List Change} {text : Text} (h : lastWhole? changes = some text) :
    ∃ before after, changes = before ++ .whole text :: after ∧ ∀ c ∈ after, c = .other := by
  obtain ⟨later, c, earlier, hchanges, hc, hlater⟩ := List.findSome?_eq_some_iff.mp h
  cases c with
  | other => cases hc
  | whole whole =>
    cases hc
    refine ⟨earlier.reverse, later.reverse, ?_, fun c hc => ?_⟩
    · rw [← List.reverse_reverse changes, hchanges]
      simp
    · have := hlater c (List.mem_reverse.mp hc)
      cases c with
      | whole => cases this
      | other => rfl

/-- What a request may do to a session: nothing, put a document into it whose text the request tells or that is read from
its file, or forget one. -/
inductive Effect (s : Session) (disk : Text → Except FileError Text) (r : Request) : Outcome → Prop where
  | nothing (reply : Except SessionError Reply) : Effect s disk r { session := s, reply }
  | put {uri : String} {path text : Text} (reply : Reply) (usable : pathOfUri uri = .ok path)
      (source : r.Tells uri (some text) ∨ r.asks uri = true ∧ s.document? uri = none ∧ disk path = .ok text) :
      Effect s disk r { session := s.put (.analyze uri path text), reply := .ok reply,
                        published := [publication (.analyze uri path text)] }
  | forget {uri : String} (told : r = .closed uri) :
      Effect s disk r { session := s.forget uri, published := [⟨uri, []⟩] }

theorem effect_update {text : Text} (tells : r.Tells uri (some text)) :
    Effect s disk r (s.update uri text) := by
  unfold update
  cases hpath : pathOfUri uri with
  | error message => exact .nothing _
  | ok path => exact .put _ hpath (Or.inl tells)

theorem effect_answer (reply : Document → Reply) (asks : r.asks uri = true) :
    Effect s disk r (s.answer disk uri reply) := by
  unfold answer
  cases hknown : s.document? uri with
  | some d => exact .nothing _
  | none =>
    cases hpath : pathOfUri uri with
    | error message => exact .nothing _
    | ok path =>
      cases htext : disk path with
      | error e => simpa only [htext] using .nothing _
      | ok text => simpa only [htext] using .put _ hpath (Or.inr ⟨asks, hknown, htext⟩)

theorem effect_handle (s : Session) (disk : Text → Except FileError Text) (r : Request) :
    Effect s disk r (s.handle disk r) := by
  cases r with
  | begin => exact .nothing _
  | notice => exact .nothing _
  | opened uri text => exact effect_update (.opened text)
  | changed uri changes =>
    cases hlast : lastWhole? changes with
    | none =>
      simp only [handle, hlast]
      exact .nothing _
    | some text =>
      obtain ⟨before, after, rfl, rest⟩ := exists_of_lastWhole? hlast
      simp only [handle, hlast]
      exact effect_update (.changed text rest)
  | closed uri => exact .forget rfl
  | symbols uri => exact effect_answer _ (by simp [Request.asks])
  | highlights uri => exact effect_answer _ (by simp [Request.asks])

theorem handle_of_tells (s : Session) (disk : Text → Except FileError Text) {text : Text}
    (usable : pathOfUri uri = .ok path) (tells : r.Tells uri (some text)) :
    s.handle disk r =
      { session := s.put (.analyze uri path text), published := [publication (.analyze uri path text)] } := by
  cases tells with
  | opened => simp only [handle, update, usable]
  | changed _ rest => simp only [handle, lastWhole?_eq_some rest, update, usable]

/-- A request that neither tells nor reads the text of a document leaves it as it is, and tells nothing of it. -/
theorem Effect.undisturbed {o : Outcome} (h : Effect s disk r o) (silent : ∀ text?, ¬r.Tells uri text?)
    (known : r.asks uri = true → s.document? uri ≠ none) :
    o.session.document? uri = s.document? uri ∧ ∀ p ∈ o.published, p.uri ≠ uri := by
  cases h with
  | nothing => exact ⟨rfl, by simp⟩
  | @put other path text reply _ source =>
    have hne : uri ≠ other := by
      rintro rfl
      rcases source with tells | ⟨asks, unknown, -⟩
      · exact silent _ tells
      · exact known asks unknown
    refine ⟨document?_put_of_ne (by rwa [uri_analyze]), fun p hp => ?_⟩
    rw [List.mem_singleton.mp hp, publication, uri_analyze]
    exact hne.symm
  | @forget other told =>
    have hne : uri ≠ other := by
      rintro rfl
      exact silent none (told ▸ .closed)
    refine ⟨document?_forget_of_ne hne, fun p hp => ?_⟩
    rw [List.mem_singleton.mp hp]
    exact hne.symm

theorem undisturbed_of_other (s : Session) (disk : Text → Except FileError Text) (other : r.uri? ≠ some uri) :
    (s.handle disk r).session.document? uri = s.document? uri ∧ ∀ p ∈ (s.handle disk r).published, p.uri ≠ uri := by
  exact (effect_handle s disk r).undisturbed (fun _ tells => other tells.about)
    (fun asks => absurd (Request.about_of_asks asks) other)

theorem session_of_error {e : SessionError} (h : (s.handle disk r).reply = .error e) : (s.handle disk r).session = s := by
  have effect := effect_handle s disk r
  generalize s.handle disk r = o at h effect ⊢
  cases effect with
  | nothing => rfl
  | put => cases h
  | forget => cases h

/-- Two outcomes say and keep the same of a document. -/
structure AgreeOn (uri : String) (o o' : Outcome) : Prop where
  reply : o.reply = o'.reply
  published : o.published = o'.published
  document : o.session.document? uri = o'.session.document? uri

section
variable {s' : Session}

theorem document?_put_congr (s s' : Session) (uri : String) (path text : Text) :
    (s.put (.analyze uri path text)).document? uri = (s'.put (.analyze uri path text)).document? uri := by
  have hself := fun s : Session => uri_analyze uri path text ▸ document?_put_self s (.analyze uri path text)
  rw [hself, hself]

theorem agree_update (same : s.document? uri = s'.document? uri) (text : Text) :
    AgreeOn uri (s.update uri text) (s'.update uri text) := by
  unfold update
  cases pathOfUri uri with
  | error => exact ⟨rfl, rfl, same⟩
  | ok path => exact ⟨rfl, rfl, document?_put_congr s s' uri path text⟩

theorem agree_answer (same : s.document? uri = s'.document? uri) (disk : Text → Except FileError Text)
    (reply : Document → Reply) : AgreeOn uri (s.answer disk uri reply) (s'.answer disk uri reply) := by
  unfold answer
  rw [← same]
  cases hknown : s.document? uri with
  | some d => exact ⟨rfl, rfl, same⟩
  | none =>
    cases pathOfUri uri with
    | error => exact ⟨rfl, rfl, same⟩
    | ok path =>
      simp only
      cases disk path with
      | error => exact ⟨rfl, rfl, same⟩
      | ok text => exact ⟨rfl, rfl, document?_put_congr s s' uri path text⟩

/-- What is said and kept of a document depends on nothing else that the session knows. -/
theorem agree_handle (same : s.document? uri = s'.document? uri) (about : r.uri? = some uri)
    (disk : Text → Except FileError Text) : AgreeOn uri (s.handle disk r) (s'.handle disk r) := by
  cases r with
  | begin => cases about
  | notice => cases about
  | opened other text =>
    cases about
    exact agree_update same text
  | changed other changes =>
    cases about
    simp only [handle]
    cases lastWhole? changes with
    | none => exact ⟨rfl, rfl, same⟩
    | some text => exact agree_update same text
  | closed other =>
    cases about
    exact ⟨rfl, rfl, (document?_forget_self s uri).trans (document?_forget_self s' uri).symm⟩
  | symbols other =>
    cases about
    exact agree_answer same disk _
  | highlights other =>
    cases about
    exact agree_answer same disk _

end

/-! ### Runs of requests -/

/-- A document that is known stays as it is until it is told of again. -/
theorem run_undisturbed {d : Document} {calls : List Call} (known : s.document? uri = some d)
    (silent : ∀ call ∈ calls, ∀ text?, ¬call.request.Tells uri text?) :
    (s.run calls).document? uri = some d ∧ ∀ p ∈ s.told calls, p.uri ≠ uri := by
  induction calls generalizing s with
  | nil => exact ⟨known, by simp [told]⟩
  | cons c calls ih =>
    obtain ⟨hc, hcalls⟩ := List.forall_mem_cons.mp silent
    obtain ⟨hdocument, hpublished⟩ := (effect_handle s c.disk c.request).undisturbed hc (fun _ => by simp [known])
    obtain ⟨hlater, htold⟩ := ih (hdocument.trans known) hcalls
    refine ⟨hlater, fun p hp => ?_⟩
    rcases List.mem_append.mp hp with hp | hp
    · exact hpublished p hp
    · exact htold p hp

def callsAbout (uri : String) (calls : List Call) : List Call := calls.filter (·.request.uri? = some uri)

/-- What a session knows of a document and tells of it comes from the calls about it. -/
theorem run_callsAbout {s' : Session} (same : s.document? uri = s'.document? uri) (calls : List Call) :
    (s.run calls).document? uri = (s'.run (callsAbout uri calls)).document? uri ∧
      (s.told calls).filter (·.uri = uri) = (s'.told (callsAbout uri calls)).filter (·.uri = uri) := by
  -- The two sessions go on separately, and only what they know of the document stays the same.
  induction calls generalizing s s' with
  | nil => exact ⟨same, rfl⟩
  | cons c calls ih =>
    by_cases about : c.request.uri? = some uri
    · obtain ⟨-, hpublished, hdocument⟩ := agree_handle same about c.disk
      obtain ⟨hrun, htold⟩ := ih hdocument
      rw [callsAbout, List.filter_cons_of_pos (by simpa using about), ← callsAbout]
      refine ⟨hrun, ?_⟩
      rw [told, told, List.filter_append, List.filter_append, hpublished, htold]
    · obtain ⟨hdocument, hpublished⟩ := undisturbed_of_other s c.disk about
      obtain ⟨hrun, htold⟩ := ih (hdocument.trans same)
      have hnone : (s.handle c.disk c.request).published.filter (·.uri = uri) = [] :=
        List.filter_eq_nil_iff.mpr fun p hp => by simpa using hpublished p hp
      rw [callsAbout, List.filter_cons_of_neg (by simpa using about), ← callsAbout]
      refine ⟨hrun, ?_⟩
      rw [told, List.filter_append, hnone, List.nil_append, htold]

theorem answersFrom_of_known {d : Document} (known : s.document? uri = some d) (disk : Text → Except FileError Text) :
    s.AnswersFrom disk uri d :=
  ⟨by simp [handle, answer, known], by simp [handle, answer, known]⟩

end Session

/-- A session follows the editor. After an event that tells the text of a document, requests about it are answered from
the analysis of that text, and its diagnostics are the last that were told of the document, until another event tells of
the document. What is answered and told of a document is what would be if all calls were about it, and a call that fails
leaves the session as it is. -/
theorem documents_follow_editor (s : Session) (uri : String) :
    (∀ (earlier later : List Call) (event : Call) (path text : Text), pathOfUri uri = .ok path →
      event.request.Tells uri (some text) → (∀ call ∈ later, ∀ text?, ¬call.request.Tells uri text?) →
      (∀ disk, (s.run (earlier ++ event :: later)).AnswersFrom disk uri (.analyze uri path text)) ∧
      ((s.told (earlier ++ event :: later)).filter (·.uri = uri)).getLast? =
        some ⟨uri, (Document.analyze uri path text).diagnostics.map Finding.ofDiagnostic⟩) ∧
    (∀ calls : List Call,
      (s.told calls).filter (·.uri = uri) = (s.told (Session.callsAbout uri calls)).filter (·.uri = uri) ∧
      ∀ disk (r : Request), r.uri? = some uri →
        ((s.run calls).handle disk r).reply = ((s.run (Session.callsAbout uri calls)).handle disk r).reply) ∧
    ∀ (calls : List Call) disk (r : Request) e, ((s.run calls).handle disk r).reply = .error e →
      ((s.run calls).handle disk r).session = s.run calls := by
  refine ⟨fun earlier later event path text usable tells silent => ?_, fun calls => ?_, fun calls disk r e h => ?_⟩
  · have hevent := Session.handle_of_tells (s.run earlier) event.disk usable tells
    have hknown : (((s.run earlier).handle event.disk event.request).session).document? uri =
        some (.analyze uri path text) := by
      rw [hevent]
      have hself := Session.document?_put_self (s.run earlier) (.analyze uri path text)
      rwa [Session.uri_analyze] at hself
    obtain ⟨hdocument, htold⟩ := Session.run_undisturbed hknown silent
    constructor
    · intro disk
      rw [Session.run_append]
      exact Session.answersFrom_of_known hdocument disk
    · -- The event itself is the last call that publishes anything about the document.
      have hnone : (((s.run earlier).handle event.disk event.request).session.told later).filter (·.uri = uri) = [] :=
        List.filter_eq_nil_iff.mpr fun p hp => by simpa using htold p hp
      rw [Session.told_append, List.filter_append, Session.told, List.filter_append, hnone, hevent]
      simp [Session.publication, Session.uri_analyze]
  · obtain ⟨hdocument, htold⟩ := Session.run_callsAbout (rfl : s.document? uri = s.document? uri) calls
    exact ⟨htold, fun disk r about => (Session.agree_handle hdocument about disk).reply⟩
  · exact Session.session_of_error h

/-- A disk without files. -/
def noFiles : Text → Except FileError Text := fun _ => .error .missing

/-- A document is opened and changed, the last change not being one of its whole text. Requests about another document
follow. -/
theorem documents_follow_editor_changed :
    let s : Session := { name := "flow", version := "1" }
    let event : Call := ⟨noFiles, .changed "a.s" ([.whole []] ++ .whole (.ofString "%a") :: [.other])⟩
    let calls := [⟨noFiles, .opened "a.s" (.ofString "OpFoo")⟩] ++ event ::
      [⟨noFiles, .symbols "b.s"⟩, ⟨noFiles, .closed "b.s"⟩]
    let d := Document.analyze "a.s" (.ofString "a.s") (.ofString "%a")
    pathOfUri "a.s" = .ok (.ofString "a.s") ∧ (∀ disk, (s.run calls).AnswersFrom disk "a.s" d) ∧
      ((s.told calls).filter (·.uri = "a.s")).getLast? = some ⟨"a.s", d.diagnostics.map Finding.ofDiagnostic⟩ := by
  intro s event calls d
  have usable : pathOfUri "a.s" = .ok (.ofString "a.s") := by decide +kernel
  refine ⟨usable, (documents_follow_editor s "a.s").1 _ _ event _ _ usable (.changed _ (by simp)) ?_⟩
  intro call hcall text? tells
  have other : ∀ call ∈ [Call.mk noFiles (.symbols "b.s"), ⟨noFiles, .closed "b.s"⟩], call.request.uri? ≠ some "a.s" := by
    simp [Request.uri?]
  exact other call hcall tells.about

end FlowTree.Editor
