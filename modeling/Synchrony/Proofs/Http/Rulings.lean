import Mathlib.Data.List.TakeWhile
import Synchrony.Proofs.Http.Responds

/-!
# What decides an answer

Three signs can decide the answer of a call that became a request: a respond for its request, the end
of its burst with a failure, and the firing of its timer. `ruling` is the answer for the signs that
there are when the call looks; of a failure and a time-out it is the one that the call looks at first.
If the signs keep the order that a burst gives them (`InTurn`), a ruling on the signs so far follows
what came before the timer fired, as far as the call was fast enough to see no more than that
(`ruling_of_responded`, `ruling_of_failed`, `ruling_of_neither`).
-/

namespace Synchrony.Http

open Requesting

/-- The answer to a call whose time was up. -/
def timedOut (request : String) (limit : Nat) : Response :=
  (ServerError.request (.timeout request limit)).response

lemma ok_ne_failed (payload : Fields) (failure : BurstFailure) : .ok payload ≠ Call.failed failure :=
  fun heq => absurd (show 200 = 500 from congrArg Response.status heq) (by decide)

lemma timedOut_ne_failed (request : String) (limit : Nat) (failure : BurstFailure) :
    timedOut request limit ≠ Call.failed failure :=
  fun heq => absurd (show 504 = 500 from congrArg Response.status heq) (by decide)

lemma ok_ne_timedOut (payload : Fields) (request : String) (limit : Nat) :
    .ok payload ≠ timedOut request limit :=
  fun heq => absurd (show 200 = 504 from congrArg Response.status heq) (by decide)

/-- The answer to a call that looks when there are these signs, unless it goes on waiting. -/
def ruling (order : Order) (limit n : Nat) (request : String) (signs : List Sign) :
    Option Response :=
  let failure := (signs.findSome? (Sign.failure? n)).map Call.failed
  let timeout := if signs.any (Sign.isTimer n) then some (timedOut request limit) else none
  ((signs.findSome? (Sign.payload? request)).map .ok).or
    (match order with
      | .response => timeout.or failure
      | .burst => failure.or timeout)

/-- The signs before the timer of a call fired. -/
def early (n : Nat) (signs : List Sign) : List Sign := signs.takeWhile fun sign => !sign.isTimer n

/-- A respond to the request comes once, and not after the burst of the call failed. -/
def InTurn (n : Nat) (request : String) (signs : List Sign) : Prop :=
  ∀ seen b args, seen ++ [.responded b request args] <+: signs →
    seen.findSome? (Sign.payload? request) = none ∧ seen.findSome? (Sign.failure? n) = none

variable {order : Order} {limit n : Nat} {q b : String} {args : Fields} {signs seen : List Sign}
  {response : Response}

/-! ### Rulings -/

lemma ruling_of_payload {payload : Fields} (h : seen.findSome? (Sign.payload? q) = some payload) :
    ruling order limit n q seen = some (.ok payload) := by
  unfold ruling
  rw [h]
  rfl

/-- Without any of the three signs a call goes on waiting. -/
lemma ruling_eq_none (hpayload : seen.findSome? (Sign.payload? q) = none)
    (hfailure : seen.findSome? (Sign.failure? n) = none) (htimer : seen.any (Sign.isTimer n) = false) :
    ruling order limit n q seen = none := by
  unfold ruling
  rw [hpayload, hfailure, htimer]
  cases order <;> rfl

/-- A ruling goes back to one of the three signs. -/
lemma ruling_cases (h : ruling order limit n q seen = some response) :
    (∃ payload, seen.findSome? (Sign.payload? q) = some payload ∧ response = .ok payload) ∨
      seen.findSome? (Sign.payload? q) = none ∧
        ((∃ failure, seen.findSome? (Sign.failure? n) = some failure ∧
            response = Call.failed failure) ∨
          seen.any (Sign.isTimer n) = true ∧ response = timedOut q limit) := by
  cases hpayload : seen.findSome? (Sign.payload? q) with
  | some payload =>
    rw [ruling_of_payload hpayload] at h
    exact .inl ⟨payload, rfl, (Option.some.inj h).symm⟩
  | none =>
    refine .inr ⟨rfl, ?_⟩
    -- in both orders it is one of the two
    have heither : (seen.findSome? (Sign.failure? n)).map Call.failed = some response ∨
        (if seen.any (Sign.isTimer n) then some (timedOut q limit) else none) = some response := by
      unfold ruling at h
      rw [hpayload, Option.map_none, Option.none_or] at h
      cases order with
      | response => exact (Option.or_eq_some_iff.1 h).symm.imp_left And.right
      | burst => exact (Option.or_eq_some_iff.1 h).imp_right And.right
    rcases heither with hfailed | htimeout
    · obtain ⟨failure, hfailure, rfl⟩ := Option.map_eq_some_iff.1 hfailed
      exact .inl ⟨failure, hfailure, rfl⟩
    · split at htimeout
      · exact .inr ⟨‹_›, (Option.some.inj htimeout).symm⟩
      · cases htimeout

/-! ### Signs in their order -/

/-- Of two beginnings of the signs, the one that ends with a sign is part of the other, or the other was
there before that sign. -/
lemma concat_isPrefix_or_isPrefix {rest : List Sign} {sign : Sign} (hseen : seen <+: signs)
    (hrest : rest ++ [sign] <+: signs) : rest ++ [sign] <+: seen ∨ seen <+: rest := by
  rcases List.prefix_or_prefix_of_prefix hrest hseen with h | h
  · exact .inl h
  · rcases List.prefix_concat_iff.1 h with rfl | h
    · exact .inl List.prefix_rfl
    · exact .inr h

lemma exists_concat_isPrefix {sign : Sign} (h : sign ∈ signs) : ∃ rest, rest ++ [sign] <+: signs := by
  obtain ⟨rest, rest', rfl⟩ := List.append_of_mem h
  exact ⟨rest, rest', by rw [List.append_assoc, List.singleton_append]⟩

lemma early_isPrefix (n : Nat) (signs : List Sign) : early n signs <+: signs := List.takeWhile_prefix _

/-- Before the timer fired there is no sign of it. -/
lemma not_fired_of_isPrefix (h : seen <+: early n signs) : seen.any (Sign.isTimer n) = false := by
  refine List.any_eq_false.2 fun sign hsign => ?_
  have hearly := List.mem_takeWhile_imp (h.mem hsign)
  simpa using hearly

lemma early_eq_self (h : signs.any (Sign.isTimer n) = false) : early n signs = signs :=
  List.takeWhile_eq_self_iff.2 fun sign hsign => by
    rw [Bool.not_eq_true']
    exact Bool.eq_false_iff.2 (List.any_eq_false.1 h sign hsign)

namespace InTurn

/-- Any signs may follow that are not of a respond to the request. -/
lemma append (h : InTurn n q signs) {more : List Sign}
    (hmore : ∀ sign ∈ more, sign.payload? q = none) : InTurn n q (signs ++ more) := by
  intro seen b args hseen
  rcases concat_isPrefix_or_isPrefix (List.prefix_append signs more) hseen with hold | ⟨rest, rfl⟩
  · exact h seen b args hold
  · rw [List.append_assoc, List.prefix_append_right_inj] at hseen
    have hnone := hmore _ (hseen.mem (List.mem_append_right _ (List.mem_singleton_self _)))
    rw [Sign.payload?, if_pos rfl] at hnone
    cases hnone

/-- A respond may follow if there was none before, and no failure. -/
lemma append_responded (h : InTurn n q signs) (hpayload : signs.findSome? (Sign.payload? q) = none)
    (hfailure : signs.findSome? (Sign.failure? n) = none) (b : String) (args : Fields) :
    InTurn n q (signs ++ [.responded b q args]) := by
  intro seen b' args' hseen
  rcases List.prefix_concat_iff.1 hseen with heq | hold
  · obtain ⟨rfl, -⟩ := List.append_inj' heq rfl
    exact ⟨hpayload, hfailure⟩
  · exact h seen b' args' hold

variable (h : InTurn n q signs)
include h

/-- A call that sees a respond sees its payload. -/
lemma payload_of_isPrefix (hresponded : seen ++ [.responded b q args] <+: signs) :
    (seen ++ [Sign.responded b q args]).findSome? (Sign.payload? q) = some (payloadOf args) := by
  rw [List.findSome?_append, (h seen b args hresponded).1]
  simp [Sign.payload?]

/-- Behind a failure there is no respond. -/
lemma payload_of_failure {failure : BurstFailure} (hseen : seen <+: signs)
    (hfailure : seen.findSome? (Sign.failure? n) = some failure)
    (hnone : seen.findSome? (Sign.payload? q) = none) : signs.findSome? (Sign.payload? q) = none := by
  refine findSome?_payload_eq_none_iff.2 fun b args hmem => ?_
  obtain ⟨rest, hrest⟩ := exists_concat_isPrefix hmem
  rcases concat_isPrefix_or_isPrefix hseen hrest with hsaw | hbefore
  · have hgiven := hsaw.mem (List.mem_append_right _ (List.mem_singleton_self _))
    exact findSome?_payload_eq_none_iff.1 hnone b args hgiven
  · have hfailed := hbefore.findSome?_eq_some hfailure
    rw [(h rest b args hrest).2] at hfailed
    cases hfailed

/-- A respond before the timer is the ruling, even if the burst fails then. -/
lemma ruling_of_responded (hresponded : .responded b q args ∈ early n signs) (hseen : seen <+: signs)
    (hruling : ruling order limit n q seen = some response) : response = .ok (payloadOf args) := by
  obtain ⟨rest, hrest⟩ := exists_concat_isPrefix hresponded
  have hsigns := hrest.trans (early_isPrefix n signs)
  rcases concat_isPrefix_or_isPrefix hseen hsigns with hsaw | hbefore
  · have hpayload := hsaw.findSome?_eq_some (h.payload_of_isPrefix hsigns)
    rw [ruling_of_payload hpayload] at hruling
    exact (Option.some.inj hruling).symm
  · -- before the respond there was nothing to rule on
    obtain ⟨hpayload, hfailure⟩ := h rest b args hsigns
    have hearly := hbefore.trans ((List.prefix_append _ _).trans hrest)
    rw [ruling_eq_none (hbefore.findSome?_eq_none hpayload) (hbefore.findSome?_eq_none hfailure)
      (not_fired_of_isPrefix hearly)] at hruling
    cases hruling

/-- A failure before the timer, without a respond, is the ruling unless the timer fired as well. -/
lemma ruling_of_failed {failure : BurstFailure}
    (hfailure : (early n signs).findSome? (Sign.failure? n) = some failure)
    (hnone : (early n signs).findSome? (Sign.payload? q) = none) (hseen : seen <+: signs)
    (hruling : ruling order limit n q seen = some response) :
    response = Call.failed failure ∨
      signs.any (Sign.isTimer n) = true ∧ response = timedOut q limit := by
  have hpayload := hseen.findSome?_eq_none
    (h.payload_of_failure (early_isPrefix n signs) hfailure hnone)
  rcases ruling_cases hruling with ⟨payload, hsome, -⟩ | ⟨-, ⟨failure', hfailed, rfl⟩ | ⟨htimer, rfl⟩⟩
  · rw [hpayload] at hsome
    cases hsome
  · have hall := hseen.findSome?_eq_some hfailed
    rw [(early_isPrefix n signs).findSome?_eq_some hfailure] at hall
    cases hall
    exact .inl rfl
  · obtain ⟨sign, hsign, hfired⟩ := List.any_eq_true.1 htimer
    exact .inr ⟨List.any_eq_true.2 ⟨sign, hseen.mem hsign, hfired⟩, rfl⟩

/-- A ruling that the burst failed is given only if there is no respond at all. -/
lemma payload_of_ruling {failure : BurstFailure} (hseen : seen <+: signs)
    (hruling : ruling order limit n q seen = some (Call.failed failure)) :
    signs.findSome? (Sign.payload? q) = none := by
  rcases ruling_cases hruling with
    ⟨payload, -, heq⟩ | ⟨hnone, ⟨failure', hfailed, -⟩ | ⟨-, heq⟩⟩
  · exact absurd heq.symm (ok_ne_failed payload failure)
  · exact h.payload_of_failure hseen hfailed hnone
  · exact absurd heq.symm (timedOut_ne_failed q limit failure)

end InTurn

/-- With neither a respond nor a failure before the timer, a ruling is given only after it fired: the
time-out, or what came after all. -/
lemma ruling_of_neither (hpayload : (early n signs).findSome? (Sign.payload? q) = none)
    (hfailure : (early n signs).findSome? (Sign.failure? n) = none) (hseen : seen <+: signs)
    (hruling : ruling order limit n q seen = some response) : signs.any (Sign.isTimer n) = true ∧
      (response = timedOut q limit ∨
        (∃ payload, signs.findSome? (Sign.payload? q) = some payload ∧ response = .ok payload) ∨
        ∃ failure, signs.findSome? (Sign.failure? n) = some failure ∧
          response = Call.failed failure) := by
  constructor
  · by_contra hnot
    have hearly := early_eq_self (Bool.eq_false_iff.2 hnot)
    rw [hearly] at hpayload hfailure
    rw [ruling_eq_none (hseen.findSome?_eq_none hpayload) (hseen.findSome?_eq_none hfailure)
      (not_fired_of_isPrefix (hearly.symm ▸ hseen))] at hruling
    cases hruling
  · rcases ruling_cases hruling with
      ⟨payload, hsaw, heq⟩ | ⟨-, ⟨failure, hsaw, heq⟩ | ⟨-, heq⟩⟩
    · exact .inr (.inl ⟨payload, hseen.findSome?_eq_some hsaw, heq⟩)
    · exact .inr (.inr ⟨failure, hseen.findSome?_eq_some hsaw, heq⟩)
    · exact .inl heq

end Synchrony.Http
