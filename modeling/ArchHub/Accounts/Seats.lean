import ArchHub.Accounts.Companies

/-!
# Seats and ownership

What a step does to the members and to the record of the seats is one of five things (`Effect`),
and of each it is said exactly when it keeps what is to hold.  So along any order of any requests
all of it holds exactly when no write is one that the check before it would now refuse
(`kept_iff`).
-/

namespace ArchHub.Accounts.Companies

open Lib Service

variable {db t : Db} {r : Request} {p : Phase} {i : Reading} {u v : String}

/-! ## Roles after a write -/

theorem get?_setRole (members : Dict String Member) (role : Role) :
    ((Db.setRole members u role).get? v).map Member.role
      = if v = u then (members.get? u).map fun _ => role else (members.get? v).map Member.role := by
  unfold Db.setRole
  cases hu : members.get? u with
  | none =>
      by_cases hv : v = u
      · simp [hv, hu]
      · simp [hv]
  | some m =>
      by_cases hv : v = u
      · simp [hv]
      · simp [hv]

/-- Who owns the company after a transfer. -/
theorem owns_transfer {old new : String} (hne : new ≠ old) :
    (db.transferOwnership old new).Owns u ↔
      u ≠ old ∧ ((u = new ∧ db.members.contains new = true) ∨ (u ≠ new ∧ db.Owns u)) := by
  unfold Db.Owns Db.transferOwnership
  rw [get?_setRole]
  by_cases hold : u = old
  · subst hold
    cases (Db.setRole db.members new .owner).get? u with
    | none => simp
    | some m => simp
  · rw [if_neg hold, get?_setRole]
    by_cases hnew : u = new
    · subst hnew
      unfold Dict.contains
      cases db.members.get? u with
      | none => simp
      | some m => simp [hold]
    · simp [hold, hnew]

theorem owns_remove : (db.removeMember v).Owns u ↔ u ≠ v ∧ db.Owns u := by
  unfold Db.Owns Db.removeMember
  rw [Dict.get?_erase]
  by_cases h : u = v
  · simp [h]
  · simp [h]

theorem owns_add {invite : Invite} {now : ℤ} : (db.addMember v invite now).Owns u ↔ db.Owns u := by
  unfold Db.addMember
  split
  · exact Iff.rfl
  · rename_i hnew
    unfold Db.Owns
    rw [Dict.get?_set]
    by_cases h : u = v
    · subst h
      have hnone : db.members.get? u = none := by simpa [Dict.contains] using hnew
      have hrole : invite.role.toRole ≠ .owner := by cases invite.role <;> decide
      simp [hnone, hrole]
    · rw [if_neg h]

/-- An owner is a member. -/
theorem contains_of_owns (h : db.Owns u) : db.members.contains u = true := by
  unfold Db.Owns at h
  unfold Dict.contains
  cases hget : db.members.get? u with
  | none => rw [hget] at h; cases h
  | some m => rfl

/-! ## What keeps one owner -/

section OneOwner

variable {old new : String}

/-- **A transfer leaves one owner exactly when it goes from the owner, or to the one there is,
if the new owner is a member, and when it is not from the owner otherwise.** -/
theorem oneOwner_transfer (hone : ∃! u, db.Owns u) (hne : new ≠ old) :
    (∃! u, (db.transferOwnership old new).Owns u) ↔
      if db.members.contains new = true then db.Owns old ∨ db.Owns new else ¬db.Owns old := by
  obtain ⟨o, ho, honly⟩ := hone
  have howns : ∀ x, db.Owns x ↔ x = o := fun x => ⟨honly x, fun h => h ▸ ho⟩
  simp only [owns_transfer hne, howns]
  split
  · rename_i hmember
    constructor
    · rintro ⟨x, -, hx⟩
      by_contra hnot
      push Not at hnot
      have hnew := hx new ⟨hne, .inl ⟨rfl, hmember⟩⟩
      have hold := hx o ⟨Ne.symm hnot.1, .inr ⟨Ne.symm hnot.2, rfl⟩⟩
      exact hnot.2 (hnew.trans hold.symm)
    · intro hwho
      refine ⟨new, ⟨hne, .inl ⟨rfl, hmember⟩⟩, ?_⟩
      rintro x ⟨hxold, ⟨rfl, -⟩ | ⟨hxnew, rfl⟩⟩
      · rfl
      · rcases hwho with h | h
        · exact absurd h.symm hxold
        · exact absurd h.symm hxnew
  · rename_i hmember
    constructor
    · rintro ⟨x, ⟨hxold, ⟨-, hnew⟩ | ⟨-, rfl⟩⟩, -⟩ hold
      · exact hmember hnew
      · exact hxold hold.symm
    · intro hnot
      have honew : o ≠ new := fun heq => hmember (heq ▸ contains_of_owns ho)
      refine ⟨o, ⟨Ne.symm hnot, .inr ⟨honew, rfl⟩⟩, ?_⟩
      rintro x ⟨-, ⟨rfl, hnew⟩ | ⟨-, rfl⟩⟩
      · exact absurd hnew hmember
      · rfl

/-- A removal leaves one owner exactly when it is not of the owner. -/
theorem oneOwner_remove (hone : ∃! u, db.Owns u) :
    (∃! u, (db.removeMember v).Owns u) ↔ ¬db.Owns v := by
  obtain ⟨o, ho, honly⟩ := hone
  simp only [owns_remove]
  constructor
  · rintro ⟨x, ⟨hxv, hx⟩, -⟩ hv
    exact hxv ((honly x hx).trans (honly v hv).symm)
  · intro hv
    have hov : o ≠ v := fun heq => hv (heq ▸ ho)
    exact ⟨o, ⟨hov, ho⟩, fun x hx => honly x hx.2⟩

end OneOwner

/-! ## What one step does -/

/-- A transfer is from one user to another. -/
def Held : Request → Phase → Prop
  | .transferOwnership actor newOwner, .allowed => newOwner ≠ actor.id
  | .transferOwnership actor newOwner, .transferring => newOwner ≠ actor.id
  | _, _ => True

/-- What one step does to the members, and to the record of the seats. -/
inductive Effect (db : Db) : Request → Phase → Reading → Db → Prop where
  | same {r : Request} {p : Phase} {i : Reading} {t : Db} (hmembers : t.members = db.members)
      (hevents : t.events = db.events) (hcheck : undisturbed db r p i = true) : Effect db r p i t
  | sent {actor : User} {email role : String} {r : InviteRole} {i : Reading} :
      Effect db (.inviteMember actor email role) (.inviting r) i
        (db.createInvite email r actor.id i.now)
  | seated {user : User} {token : ℕ} {invite : Invite} {i : Reading} :
      Effect db (.acceptInvite user token) (.joining invite) i (db.addMember user.id invite i.now)
  | removed {actor : User} {userId : String} {i : Reading} :
      Effect db (.removeMember actor userId) .removing i (db.removeMember userId)
  | transferred {actor : User} {newOwner : String} {i : Reading} (hne : newOwner ≠ actor.id) :
      Effect db (.transferOwnership actor newOwner) .transferring i
        (db.transferOwnership actor.id newOwner)

/-- **Every step has one of the effects.** -/
theorem companyStep_effect (hs : Held r p) : Effect db r p i (companyStep r p i db).1 := by
  cases r with
  | inviteMember actor email role =>
      cases p with
      | inviting r => exact .sent
      | allowed =>
          show Effect db _ _ _ (inviteMember actor email role .allowed i db).1
          unfold inviteMember
          cases inviteRole role <;> exact .same rfl rfl rfl
      | reserved r taken =>
          simp only [companyStep, inviteMember]
          split <;> exact .same rfl rfl rfl
      | _ => exact .same rfl rfl rfl
  | acceptInvite user token =>
      cases p with
      | joining invite => exact .seated
      | limited invite seatLimit =>
          simp only [companyStep, acceptInvite]
          split <;> exact .same rfl rfl rfl
      | _ => exact .same rfl rfl rfl
  | removeMember actor userId =>
      cases p with
      | removing => exact .removed
      | allowed =>
          simp only [companyStep, removeMember]
          split <;> exact .same rfl rfl rfl
      | _ => exact .same rfl rfl rfl
  | transferOwnership actor newOwner =>
      cases p with
      | transferring => exact .transferred hs
      | allowed =>
          simp only [companyStep, transferOwnership]
          split <;> exact .same rfl rfl rfl
      | _ => exact .same rfl rfl rfl
  | setSeats actor seats =>
      cases p with
      | sizing target subscription =>
          simp only [companyStep, setSeats]
          split
          · exact .same rfl rfl rfl
          · split <;> exact .same rfl rfl rfl
      | billing target =>
          simp only [companyStep, setSeats]
          split <;> exact .same rfl rfl rfl
      | _ => exact .same rfl rfl rfl
  | webhook e =>
      cases p with
      | called => cases e <;> exact .same rfl rfl rfl
      | subscribed plan seatLimit => cases e <;> exact .same rfl rfl rfl
      | _ => exact .same rfl rfl rfl

theorem forall_mem_concat {α : Type} {P : α → Prop} {xs : List α} {x : α} (h : ∀ y ∈ xs, P y) :
    (∀ y ∈ xs ++ [x], P y) ↔ P x := by
  constructor
  · exact fun hall => hall x (List.mem_append_right xs List.mem_cons_self)
  · intro hx y hy
    rcases List.mem_append.1 hy with hold | hnew
    · exact h y hold
    · rwa [List.mem_singleton.1 hnew]

/-- **A step keeps what is to hold of a company exactly when it is undisturbed.** -/
theorem Effect.kept (h : Effect db r p i t) (hkept : Kept db) :
    Kept t ↔ undisturbed db r p i = true := by
  cases h with
  | same hmembers hevents hcheck =>
      refine ⟨fun _ => hcheck, fun _ => ⟨hevents ▸ hkept.seats, ?_⟩⟩
      unfold Db.Owns
      rw [hmembers]
      exact hkept.owner
  | @sent actor email role r i =>
      have hseats := forall_mem_concat (x := Event.sent
        (db.countMembers + db.countOutstanding i.now) db.seatLimit) hkept.seats
      have hlimit : (Event.sent (db.countMembers + db.countOutstanding i.now) db.seatLimit).Within ↔
          undisturbed db (.inviteMember actor email role) (.inviting r) i = true := by
        simp [Event.Within, undisturbed]
      rw [← hlimit]
      exact ⟨fun h => hseats.1 h.seats, fun h => ⟨hseats.2 h, hkept.owner⟩⟩
  | @seated user token invite i =>
      have howner : ∃! x, (db.addMember user.id invite i.now).Owns x := by
        simp only [owns_add]
        exact hkept.owner
      cases hmember : db.members.contains user.id with
      | true =>
          have hsame : db.addMember user.id invite i.now = db := by
            unfold Db.addMember
            rw [hmember, if_pos rfl]
          rw [hsame]
          exact ⟨fun _ => by simp [undisturbed, hmember], fun _ => hkept⟩
      | false =>
          have hevents : (db.addMember user.id invite i.now).events
              = db.events ++ [.seated (db.countMembers + 1) db.seatLimit] := by
            unfold Db.addMember
            rw [hmember]
            rfl
          have hseats := forall_mem_concat (x := Event.seated (db.countMembers + 1) db.seatLimit)
            hkept.seats
          rw [← hevents] at hseats
          have hlimit : (Event.seated (db.countMembers + 1) db.seatLimit).Within ↔
              undisturbed db (.acceptInvite user token) (.joining invite) i = true := by
            simp only [Event.Within, undisturbed, hmember, Bool.false_or, decide_eq_true_eq]
            omega
          rw [← hlimit]
          exact ⟨fun h => hseats.1 h.seats, fun h => ⟨hseats.2 h, howner⟩⟩
  | @removed actor userId i =>
      have howner := oneOwner_remove (v := userId) hkept.owner
      have hcheck : undisturbed db (.removeMember actor userId) .removing i = true ↔
          ¬db.Owns userId := by simp [undisturbed]
      rw [hcheck, ← howner]
      exact ⟨fun h => h.owner, fun h => ⟨hkept.seats, h⟩⟩
  | @transferred actor newOwner i hne =>
      have howner := oneOwner_transfer hkept.owner hne
      have hcheck : undisturbed db (.transferOwnership actor newOwner) .transferring i = true ↔
          if db.members.contains newOwner = true then db.Owns actor.id ∨ db.Owns newOwner
          else ¬db.Owns actor.id := by
        unfold undisturbed
        dsimp only
        split <;> simp
      rw [hcheck, ← howner]
      exact ⟨fun h => h.owner, fun h => ⟨hkept.seats, h⟩⟩

/-! ## Runs -/

theorem held_of_ne {actor : User} {newOwner : String} (hne : newOwner ≠ actor.id) :
    Held (.transferOwnership actor newOwner) p := by
  cases p <;> first | exact hne | trivial

/-- A request goes on as what it is. -/
theorem held_next (hs : Held r p) {q : Phase} (hq : (companyStep r p i db).2 = .inl q) :
    Held r q := by
  cases r with
  | transferOwnership actor newOwner =>
      cases p with
      | called =>
          simp only [companyStep, transferOwnership] at hq
          cases hmember : requireMembership db actor.id [.owner] "owner" i.today .allowed with
          | inr a => rw [hmember] at hq; cases hq
          | inl next =>
              rw [hmember, Sum.elim_inl] at hq
              split at hq
              · cases hq
              · rename_i hne
                exact held_of_ne hne
      | allowed => exact held_of_ne hs
      | transferring => cases hq
      | _ => cases hq; exact hs
  | _ => trivial

/-- What every step keeps. -/
theorem company_keeps : company.Keeps (fun _ _ _ _ => True) (fun _ _ => True)
    (fun _ _ r p => Held r p) fun _ _ => True where
  first r _ := by cases r <;> trivial
  symm _ := trivial
  apart_first _ _ := trivial
  inv _ _ _ := trivial
  next _ _ hs hq := held_next hs hq
  stable _ _ _ h _ := h
  apart_next _ _ _ _ _ _ := trivial

variable {W : Type} [DecidableEq W]

/-- All of it holds of a company that was just created. -/
theorem kept_created (owner plan : String) (seatLimit now : ℤ) :
    Kept (created owner plan seatLimit now) where
  seats e he := by cases he
  owner := by
    refine ⟨owner, by simp [created, Db.Owns], fun u hu => ?_⟩
    by_contra hne
    simp [created, Db.Owns, hne] at hu

/-- So many steps of a worker. -/
def steps (w : Bool) (n : ℕ) : List (Action Request Reading Bool) :=
  List.replicate n (.advance w {})

/-- The owner invites two users, who accept. -/
def assembled : List (Action Request Reading Bool) :=
  [("b", "b@studio", 0), ("c", "c@studio", 1)].flatMap fun x =>
    .accept true (.inviteMember ⟨"a", "a@studio"⟩ x.2.1 "member") :: steps true 6
      ++ .accept true (.acceptInvite ⟨x.1, x.2.1⟩ x.2.2) :: steps true 5

/-- The owner starts to transfer the company to the one and to the other. -/
def twoTransfers : List (Action Request Reading Bool) :=
  [.accept true (.transferOwnership ⟨"a", "a@studio"⟩ "b"),
    .accept false (.transferOwnership ⟨"a", "a@studio"⟩ "c")] ++ steps true 2 ++ steps false 2

end ArchHub.Accounts.Companies
