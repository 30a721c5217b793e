import BeaconReplay.Client.Rest
import BeaconReplay.Proofs.Client.Payloads
import BeaconReplay.Proofs.Http.Texts

/-!
# Bodies of answers

A body holds the answer to a duty if its document gives the data of that duty: as the member
`data` of an object, wherever it stands among others, or as the one item of an array. The answer to
a whole response is told by its status and its body alone.
-/
namespace BeaconReplay

namespace Json

variable {α : Type} {read : Node → Decoded α} {P : Document → α → Prop}

/-- A document that gives data of a shape. -/
def Carries (P : Document → α → Prop) (d : Document) (a : α) : Prop :=
  ∃ listed, d.Gives ["data"] listed ∧ Given listed "data" P a

/-- A document that gives the version of a node. -/
def IsNodeVersion (d : Document) (s : String) : Prop :=
  ∃ listed, d.Gives ["version"] listed ∧ Given listed "version" IsText s

theorem decides_nodeVersion : Decides source.version IsNodeVersion := by
  refine decides_record (by simp) (fun n listed e s h he => ?_) fun n listed s h hgiven => ?_
  · exact decides_text.required_eq_ok_iff h he (by simp)
  · exact List.forall_mem_singleton.2 (decides_text.checks_of_given h (by simp) hgiven)

theorem decides_payload (hread : Decides read P) : Decides (source.payload read) (Carries P) := by
  refine decides_record (by simp) (fun n listed e a h he => ?_) fun n listed a h hgiven => ?_
  · exact hread.required_eq_ok_iff h he (by simp)
  · exact List.forall_mem_singleton.2 (hread.checks_of_given h (by simp) hgiven)

end Json

namespace Reply

open Json (Document Carries)

/-- A document that gives the data of a duty holds the answer that they make. -/
def Held (d : Duty) (doc : Document) (a : Reply) : Prop :=
  match d with
  | .genesis => ∃ g, Carries Json.IsGenesis doc g ∧ .genesis g = a
  | .nodeVersion => ∃ s, Carries Json.IsNodeVersion doc s ∧ .version s = a
  | .syncing => ∃ s, Carries Json.IsSyncStatus doc s ∧ .syncing s = a
  | .proposerDuties _ => ∃ ps, Carries (Json.IsList Json.IsDuty) doc ps ∧ .duties ps.toList = a

/-- A body is the text of one document, which holds an answer. -/
def InBody (d : Duty) (body : List UInt8) (a : Reply) : Prop :=
  ∃ doc, Document.ofChars (Json.bodyChars body) = ⟨doc, true⟩ ∧ Held d doc a

variable {d : Duty} {body : List UInt8} {a : Reply}

theorem answer_eq_ok_iff {α : Type} {read : Json.Node → Decoded α} {P : Document → α → Prop}
    (hread : Json.Decides read P) {make : α → Reply} :
    (match Json.decodeBody (Json.source.payload read) body with
      | .ok x => pure (make x)
      | .error fault => throw (.json fault) : Except ClientError Reply) = .ok a ↔
      ∃ doc, Document.ofChars (Json.bodyChars body) = ⟨doc, true⟩ ∧
        ∃ x, Carries P doc x ∧ make x = a := by
  have hbody (x : α) : Json.decodeBody (Json.source.payload read) body = .ok x ↔
      ∃ doc, Document.ofChars (Json.bodyChars body) = ⟨doc, true⟩ ∧ Carries P doc x :=
    Json.decodeReading_eq_ok_iff (Json.decides_payload hread)
  have hmade : (∃ x, Json.decodeBody (Json.source.payload read) body = .ok x ∧ make x = a) ↔
      ∃ doc, Document.ofChars (Json.bodyChars body) = ⟨doc, true⟩ ∧
        ∃ x, Carries P doc x ∧ make x = a := by
    simp only [hbody]
    constructor
    · rintro ⟨x, ⟨doc, hdoc, hdata⟩, hmake⟩
      exact ⟨doc, hdoc, x, hdata, hmake⟩
    · rintro ⟨doc, hdoc, x, hdata, hmake⟩
      exact ⟨x, ⟨doc, hdoc, hdata⟩, hmake⟩
  rw [← hmade]
  cases Json.decodeBody (Json.source.payload read) body <;> simp

/-- **The answer to a duty is the one that the body holds.** -/
theorem ofBody_eq_ok_iff : ofBody d body = .ok a ↔ InBody d body a := by
  cases d with
  | genesis => exact answer_eq_ok_iff Json.decides_genesis
  | nodeVersion => exact answer_eq_ok_iff Json.decides_nodeVersion
  | syncing => exact answer_eq_ok_iff Json.decides_syncStatus
  | proposerDuties epoch => exact answer_eq_ok_iff (Json.decides_list Json.decides_duty)

/-- A body in UTF-8 is read as the text that it encodes. -/
theorem inBody_encode_iff {s : String} :
    InBody d (Utf8.encode s) a ↔ ∃ doc, Document.ofString s = ⟨doc, true⟩ ∧ Held d doc a := by
  rw [InBody, Json.bodyChars_encode]
  rfl

end Reply

namespace Rest

open Json (Document)

variable [Tables]

/-- What a whole response with a body settles: a status of success and the data of the duty are
an answer, and any other status is reported with the text of the body. -/
structure Settled (d : Duty) (r : Http.Response) (body : List UInt8)
    (reply : Except ClientError Reply) : Prop where
  ok_iff : ∀ a, reply = .ok a ↔ (200 ≤ r.status ∧ r.status < 300) ∧ Reply.InBody d body a
  ok_text_iff : ∀ s, body = Utf8.encode s → ∀ a, reply = .ok a ↔
    (200 ≤ r.status ∧ r.status < 300) ∧
      ∃ doc, Document.ofString s = ⟨doc, true⟩ ∧ Reply.Held d doc a
  status : ¬(200 ≤ r.status ∧ r.status < 300) →
    ∃ text, Http.IsText r.contentType body text ∧ reply = .error (.status r.status text)

/-- **Status and body settle a duty.** -/
theorem settled_reply (d : Duty) {r : Http.Response} {body : List UInt8}
    (h : r.received = some body) : Settled d r body (reply d r) := by
  have hsuccess : r.isSuccess = true ↔ 200 ≤ r.status ∧ r.status < 300 := by
    simp [Http.Response.isSuccess]
  have hok (a : Reply) :
      reply d r = .ok a ↔ (200 ≤ r.status ∧ r.status < 300) ∧ Reply.InBody d body a := by
    rw [reply, h, ← hsuccess, ← Reply.ofBody_eq_ok_iff]
    split_ifs with hstatus <;> simp [hstatus]
  refine ⟨hok, fun s hbody a => ?_, fun hstatus => ?_⟩
  · rw [hok, hbody, Reply.inBody_encode_iff]
  · refine ⟨Http.bodyText r.contentType body, Http.isText_bodyText _ _, ?_⟩
    rw [reply, h, if_neg (hsuccess.not.2 hstatus)]
    rfl

end Rest

end BeaconReplay
