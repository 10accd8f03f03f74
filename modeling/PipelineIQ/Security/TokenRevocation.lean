import PipelineIQ.Lib.Dict
import PipelineIQ.Lib.Doubles
import PipelineIQ.Lib.Machine
import PipelineIQ.Lib.Strings

namespace PipelineIQ.Security.TokenRevocation

open PipelineIQ.Lib PipelineIQ.Lib.Strings PipelineIQ.Lib.Machine PipelineIQ.Lib.Doubles

def second : Int := 1000000

def firstDate : Int := -62135596800

def lastDate : Int := 253402300799

/-- What `datetime.now(UTC)` gives, in microseconds. -/
structure Moment where
  micros : Int
  first : firstDate * second ≤ micros
  last : micros < (lastDate + 1) * second

/-- A date of a token as Python takes it: what `int` makes of it, and whether it counts as true. -/
structure NumericDate where
  value : Int
  truthy : Bool
  truthy_of_ne : value ≠ 0 → truthy = true

structure Payload where
  jti : Option Text
  exp : Option NumericDate

/-- The library that reads tokens. It gives every time the same payload, accepts no token at
or after the second of its `exp`, and one that it accepts it goes on to accept until then. -/
structure Jwt (Token : Type) where
  decode : Token → Int → Option Payload
  payload_eq : ∀ t a b p q, decode t a = some p → decode t b = some q → p = q
  until_exp : ∀ t now p e, decode t now = some p → p.exp = some e → now < e.value * second
  accepts : ∀ t a b p, decode t a = some p → a ≤ b → (∀ e, p.exp = some e → b < e.value * second) →
    decode t b = some p

variable {Token : Type} (jwt : Jwt Token)

/-- `datetime.fromtimestamp`, where the date can be written. -/
def fromtimestamp (seconds : Int) : Option Int :=
  if firstDate ≤ seconds ∧ seconds ≤ lastDate then some (seconds * second) else none

/-- `total_seconds` of a difference of times; division by a million is rounded. -/
def totalSeconds (difference : Int) : Option Rat := nearest (difference / second)

/-- Redis as the entries of the blacklist and when they expire. -/
def revokeToken (store : Dict Text Int) (token : Token) (now : Int) : Dict Text Int :=
  match jwt.decode token now with
  | none => store
  | some payload =>
    match payload.jti, payload.exp with
    | some jti, some exp =>
      if jti.isEmpty ∨ exp.truthy = false then store
      else
        match (fromtimestamp exp.value).bind fun expiresAt => totalSeconds (expiresAt - now) with
        | none => store
        | some seconds =>
          let ttl := truncate seconds
          if ttl ≤ 0 then store else store.set jti (now + ttl * second)
    | _, _ => store

def isTokenRevoked (store : Dict Text Int) (redis : Bool) (now : Int) : Option Text → Bool
  | none => false
  | some jti =>
    if jti.isEmpty then false
    else if redis then (store.get? jti).any fun expiry => now < expiry
    else true

def verifyToken (store : Dict Text Int) (redis : Bool) (token : Token) (now : Int) :
    Option Payload :=
  match jwt.decode token now with
  | none => none
  | some payload => if isTokenRevoked store redis now payload.jti then none else some payload

/-- The tokens whose revocation has returned with Redis available are kept beside the store. -/
structure State (Token : Type) where
  now : Int
  store : Dict Text Int := ∅
  revoked : List Token := []

structure Event (Token : Type) where
  token : Token
  now : Moment
  redis : Bool

def step (s : State Token) (e : Event Token) : Option (State Token) :=
  if s.now ≤ e.now.micros then
    if e.redis then
      some ⟨e.now.micros, revokeToken jwt s.store e.token e.now.micros, s.revoked ++ [e.token]⟩
    else some { s with now := e.now.micros }
  else none

/-- No revoked token is accepted any more. -/
def StaysRevoked (s : State Token) : Prop :=
  ∀ t ∈ s.revoked, ∀ later : Moment, s.now ≤ later.micros → ∀ redis,
    verifyToken jwt s.store redis t later.micros = none

/-- The double nearest to the seconds left is the next whole number. That takes centuries. -/
def RoundsUp (left : Int) : Prop := totalSeconds left = some ((left / second + 1 : Int) : Rat)

def WholeSeconds (left : Int) : Prop := second ∣ left ∨ RoundsUp left

/-- The payload has an identifier and a date of expiry that can be written, a second or more
from now. -/
structure Storable (p : Payload) (now : Int) (jti : Text) (date : NumericDate) : Prop where
  hasIdentifier : p.jti = some jti
  nonempty : jti ≠ []
  hasExpiry : p.exp = some date
  truthy : date.truthy = true
  written : date.value ≤ lastDate
  lasting : second ≤ date.value * second - now ∨ RoundsUp (date.value * second - now)

/-- The store has an entry for the payload that lasts longer than this. -/
def Covered (store : Dict Text Int) (p : Payload) (now : Int) : Prop :=
  ∃ jti expiry, p.jti = some jti ∧ jti ≠ [] ∧ store.get? jti = some expiry ∧ now < expiry

/-- The end of the last second that has begun before a difference of times is over. -/
def ceilSeconds (left : Int) : Int := -(-left / second) * second

/-- The condition of a revocation. Where an entry is stored, whole seconds are left, and no token
revoked before that shares the identifier is accepted for longer. Where none is, the token is
never accepted again except under an entry that is there already. -/
def Guard (s : State Token) (e : Event Token) : Prop :=
  s.now ≤ e.now.micros → e.redis = true →
    (∀ p jti date, jwt.decode e.token e.now.micros = some p → Storable p e.now.micros jti date →
      WholeSeconds (date.value * second - e.now.micros) ∧
      ∀ t ∈ s.revoked, ∀ later : Moment, e.now.micros ≤ later.micros → ∀ q,
        jwt.decode t later.micros = some q → q.jti = some jti →
          later.micros < e.now.micros + ceilSeconds (date.value * second - e.now.micros)) ∧
    ((∀ p jti date, jwt.decode e.token e.now.micros = some p →
        ¬ Storable p e.now.micros jti date) →
      ∀ later : Moment, e.now.micros ≤ later.micros → ∀ p,
        jwt.decode e.token later.micros = some p → Covered s.store p later.micros)

variable {jwt} {s t : State Token} {e : Event Token} {store : Dict Text Int} {p q : Payload}
  {token : Token} {now left : Int} {jti : Text} {date : NumericDate}

section Seconds

/-- What is left is at least the whole seconds counted of it, and less than one more. -/
theorem exists_totalSeconds (left : Int) (hleft : 0 < left) (hlast : left < 2 ^ 52 * second) :
    ∃ r, totalSeconds left = some r ∧
      (truncate r = left / second ∧ ¬ RoundsUp left ∨
        truncate r = left / second + 1 ∧ RoundsUp left) := by
  obtain ⟨n, hn⟩ := Int.eq_ofNat_of_zero_le (Int.ediv_nonneg hleft.le (by decide : 0 ≤ second))
  have hlow : (n : Rat) ≤ (left : Rat) / second := by
    rw [le_div_iff₀ (by norm_num [second])]
    have hmul : (n : Int) * second ≤ left := by
      rw [← hn]
      exact Int.ediv_mul_le left (by decide)
    exact_mod_cast hmul
  have hhigh : (left : Rat) / second ≤ (n + 1 : Nat) := by
    rw [div_le_iff₀ (by norm_num [second])]
    have hmul : left ≤ ((n : Int) + 1) * second := by
      rw [← hn]
      exact (Int.lt_ediv_add_one_mul_self left (by decide)).le
    exact_mod_cast hmul
  have hbound : n + 1 < 2 ^ 53 := by
    have hdiv : left / second < 2 ^ 52 := Int.ediv_lt_of_lt_mul (by decide) hlast
    omega
  obtain ⟨r, hr, hge, hle⟩ := exists_nearest_between hlow hhigh hbound
  have htrunc := truncate_nonneg ((Nat.cast_nonneg n).trans hge)
  refine ⟨r, hr, ?_⟩
  by_cases htop : r = (n + 1 : Nat)
  · apply Or.inr
    constructor
    · rw [htrunc, htop, hn, Int.floor_natCast]
      rfl
    · rw [RoundsUp, hn, totalSeconds, hr, htop]
      rfl
  · apply Or.inl
    constructor
    · rw [htrunc, hn, Int.floor_eq_iff]
      refine ⟨by exact_mod_cast hge, ?_⟩
      have hlt := lt_of_le_of_ne hle htop
      exact_mod_cast hlt
    · intro hup
      rw [RoundsUp, totalSeconds, hr, hn, Option.some_inj] at hup
      exact htop (by rw [hup]; push_cast; rfl)

theorem not_dvd_of_roundsUp (hup : RoundsUp left) (hleft : 0 < left)
    (hlast : left < 2 ^ 52 * second) : ¬ second ∣ left := by
  rintro ⟨k, rfl⟩
  obtain ⟨n, rfl⟩ := Int.eq_ofNat_of_zero_le (show 0 ≤ k by rw [second] at hleft; omega)
  have hn : n ≤ 2 ^ 53 := by
    rw [second] at hlast
    omega
  have hquotient : ((second * (n : Int) : Int) : Rat) / second = n := by
    rw [Int.cast_mul, Int.cast_natCast]
    exact mul_div_cancel_left₀ _ (by norm_num [second])
  rw [RoundsUp, totalSeconds, hquotient, nearest_natCast hn, Option.some_inj,
    Int.mul_ediv_cancel_left _ (by decide)] at hup
  have hint : (n : Int) = n + 1 := by exact_mod_cast hup
  omega

/-- Whole seconds are all that is left, counted up. -/
theorem wholeSeconds_iff {ttl : Int} (hleft : 0 < left) (hlast : left < 2 ^ 52 * second)
    (h : ttl = left / second ∧ ¬ RoundsUp left ∨ ttl = left / second + 1 ∧ RoundsUp left) :
    (WholeSeconds left ↔ left ≤ ttl * second) ∧
      (WholeSeconds left → ttl * second = ceilSeconds left) := by
  obtain ⟨rfl, hup⟩ | ⟨rfl, hup⟩ := h
  · have hwhole : WholeSeconds left ↔ second ∣ left := or_iff_left hup
    rw [hwhole, ceilSeconds, second]
    constructor
    · omega
    · intro hdvd
      omega
  · have hdvd := not_dvd_of_roundsUp hup hleft hlast
    rw [ceilSeconds]
    rw [second] at hdvd ⊢
    constructor
    · exact iff_of_true (Or.inr hup) (by omega)
    · intro _
      omega

theorem le_ceilSeconds (left : Int) : left ≤ ceilSeconds left := by
  rw [ceilSeconds, second]
  omega

end Seconds

section Calls

variable (store) in
/-- The call where there is an identifier and a date that can be written. -/
theorem revokeToken_date {now : Moment} (hd : jwt.decode token now.micros = some p)
    (hj : p.jti = some jti) (hne : jti ≠ []) (he : p.exp = some date) (ht : date.truthy = true)
    (hw : date.value ≤ lastDate) :
    ∃ ttl, (ttl = (date.value * second - now.micros) / second ∧
          ¬ RoundsUp (date.value * second - now.micros) ∨
        ttl = (date.value * second - now.micros) / second + 1 ∧
          RoundsUp (date.value * second - now.micros)) ∧
      revokeToken jwt store token now.micros =
        if ttl ≤ 0 then store else store.set jti (now.micros + ttl * second) := by
  have hexp := jwt.until_exp token _ p date hd he
  have hfirst := now.first
  obtain ⟨r, hr, htrunc⟩ := exists_totalSeconds (date.value * second - now.micros)
    (by omega) (by rw [second, firstDate] at *; rw [lastDate] at hw; omega)
  have hdate : fromtimestamp date.value = some (date.value * second) := by
    rw [fromtimestamp, if_pos]
    rw [second, firstDate] at *
    omega
  have hempty : ¬ (jti.isEmpty = true ∨ date.truthy = false) := by
    rw [List.isEmpty_iff, ht]
    exact fun h => h.elim hne nofun
  refine ⟨truncate r, htrunc, ?_⟩
  simp only [revokeToken, hd, hj, he, if_neg hempty, hdate, Option.bind_some, hr]

theorem length_left {now : Moment} (hd : jwt.decode token now.micros = some p)
    (he : p.exp = some date) (hw : date.value ≤ lastDate) :
    0 < date.value * second - now.micros ∧
      date.value * second - now.micros < 2 ^ 52 * second := by
  have hexp := jwt.until_exp token _ p date hd he
  have hfirst := now.first
  rw [second, firstDate] at *
  rw [lastDate] at hw
  omega

variable (store) in
/-- The entry that the call stores lasts until the token expires exactly when whole seconds
are left. -/
theorem revokeToken_storable {now : Moment} (hd : jwt.decode token now.micros = some p)
    (h : Storable p now.micros jti date) :
    ∃ expiry, revokeToken jwt store token now.micros = store.set jti expiry ∧
      now.micros < expiry ∧
      (WholeSeconds (date.value * second - now.micros) ↔ date.value * second ≤ expiry) ∧
      (WholeSeconds (date.value * second - now.micros) →
        expiry = now.micros + ceilSeconds (date.value * second - now.micros)) := by
  obtain ⟨hleft, hlast⟩ := length_left hd h.hasExpiry h.written
  obtain ⟨ttl, httl, hrun⟩ := revokeToken_date store hd h.hasIdentifier h.nonempty
    h.hasExpiry h.truthy h.written
  obtain ⟨hwhole, hceil⟩ := wholeSeconds_iff hleft hlast httl
  have hpos : 0 < ttl := by
    have hlasting := h.lasting
    obtain ⟨rfl, hup⟩ | ⟨rfl, hup⟩ := httl
    · have hsecond := hlasting.resolve_right hup
      rw [second] at *
      omega
    · rw [second] at *
      omega
  refine ⟨now.micros + ttl * second, ?_, ?_, ?_, ?_⟩
  · rw [hrun, if_neg (not_le.mpr hpos)]
  · rw [second]
    omega
  · rw [hwhole]
    omega
  · intro hw
    rw [hceil hw]

theorem revokeToken_of_not_storable {now : Moment}
    (h : ∀ p jti date, jwt.decode token now.micros = some p → ¬ Storable p now.micros jti date) :
    revokeToken jwt store token now.micros = store := by
  cases hd : jwt.decode token now.micros with
  | none => rw [revokeToken, hd]
  | some p =>
    cases hj : p.jti with
    | none => simp only [revokeToken, hd, hj]
    | some jti =>
      cases he : p.exp with
      | none => simp only [revokeToken, hd, hj, he]
      | some date =>
        by_cases hempty : jti.isEmpty = true ∨ date.truthy = false
        · simp only [revokeToken, hd, hj, he, if_pos hempty]
        · have hne : jti ≠ [] := fun h => hempty (Or.inl (List.isEmpty_iff.mpr h))
          have ht : date.truthy = true := Bool.of_not_eq_false fun h => hempty (Or.inr h)
          by_cases hw : date.value ≤ lastDate
          · obtain ⟨ttl, httl, hrun⟩ := revokeToken_date store hd hj hne he ht hw
            obtain ⟨hleft, _⟩ := length_left hd he hw
            have hshort : ¬ (second ≤ date.value * second - now.micros ∨
                RoundsUp (date.value * second - now.micros)) :=
              fun hl => h p jti date hd ⟨hj, hne, he, ht, hw, hl⟩
            rw [not_or] at hshort
            obtain ⟨rfl, -⟩ | ⟨-, hup⟩ := httl
            · rw [hrun, if_pos]
              rw [second] at *
              omega
            · exact absurd hup hshort.2
          · have hdate : fromtimestamp date.value = none := by
              rw [fromtimestamp, if_neg]
              omega
            simp only [revokeToken, hd, hj, he, if_neg hempty, hdate, Option.bind_none]

theorem isTokenRevoked_iff : isTokenRevoked store true now p.jti = true ↔ Covered store p now := by
  cases hj : p.jti with
  | none =>
    apply iff_of_false Bool.false_ne_true
    rintro ⟨jti, expiry, hj', -⟩
    rw [hj] at hj'
    cases hj'
  | some jti =>
    by_cases hne : jti = []
    · rw [hne]
      apply iff_of_false Bool.false_ne_true
      rintro ⟨jti', expiry, hj', hne', -⟩
      rw [hj, hne] at hj'
      exact hne' (Option.some.inj hj').symm
    · rw [isTokenRevoked, if_neg (by rwa [List.isEmpty_iff]), if_pos rfl, Option.any_eq_true]
      constructor
      · rintro ⟨expiry, hget, hlt⟩
        exact ⟨jti, expiry, hj, hne, hget, of_decide_eq_true hlt⟩
      · rintro ⟨jti', expiry, hj', -, hget, hlt⟩
        rw [hj] at hj'
        cases hj'
        exact ⟨expiry, hget, decide_eq_true hlt⟩

/-- Without Redis every token that has an identifier is refused. -/
theorem isTokenRevoked_of_unavailable (h : isTokenRevoked store true now p.jti = true) :
    isTokenRevoked store false now p.jti = true := by
  obtain ⟨jti, expiry, hj, hne, -⟩ := isTokenRevoked_iff.mp h
  rw [hj, isTokenRevoked, if_neg (by rwa [List.isEmpty_iff]), if_neg Bool.false_ne_true]

theorem verifyToken_iff : (∀ redis, verifyToken jwt store redis token now = none) ↔
    ∀ p, jwt.decode token now = some p → Covered store p now := by
  cases hd : jwt.decode token now with
  | none =>
    apply iff_of_true
    · intro redis
      rw [verifyToken, hd]
    · intro p hp
      cases hp
  | some p =>
    have hverify : ∀ redis, verifyToken jwt store redis token now = none ↔
        isTokenRevoked store redis now p.jti = true := by
      intro redis
      simp only [verifyToken, hd]
      split
      · next h => exact iff_of_true rfl h
      · next h => exact iff_of_false (fun h' => nomatch h') h
    constructor
    · intro h q hq
      cases hq
      exact isTokenRevoked_iff.mp ((hverify true).mp (h true))
    · intro h redis
      have hrevoked := isTokenRevoked_iff.mpr (h p rfl)
      rw [hverify]
      cases redis with
      | true => exact hrevoked
      | false => exact isTokenRevoked_of_unavailable hrevoked

end Calls

section Runs

theorem covered_set_of_eq {expiry : Int} (hne : jti ≠ []) (h : p.jti = some jti) :
    Covered (store.set jti expiry) p now ↔ now < expiry := by
  constructor
  · rintro ⟨jti', expiry', hj, -, hget, hlt⟩
    rw [h] at hj
    cases hj
    rw [Dict.get?_set, if_pos rfl] at hget
    cases hget
    exact hlt
  · intro hlt
    exact ⟨jti, expiry, h, hne, by rw [Dict.get?_set, if_pos rfl], hlt⟩

theorem covered_set_of_ne {expiry : Int} (h : p.jti ≠ some jti) :
    Covered (store.set jti expiry) p now ↔ Covered store p now := by
  apply exists₂_congr
  intro jti' expiry'
  apply and_congr_right
  intro hj
  have hne : jti' ≠ jti := fun heq => h (heq ▸ hj)
  rw [Dict.get?_set, if_neg hne]

theorem staysRevoked_iff : StaysRevoked jwt s ↔ ∀ t ∈ s.revoked, ∀ later : Moment,
    s.now ≤ later.micros → ∀ p, jwt.decode t later.micros = some p →
      Covered s.store p later.micros := by
  rw [StaysRevoked]
  apply forall₂_congr
  intro t _
  apply forall₂_congr
  intro later _
  exact verifyToken_iff

/-- A revocation with Redis in a state where the revoked tokens stay revoked. -/
theorem staysRevoked_revoke {now : Moment} (h : StaysRevoked jwt s) (hle : s.now ≤ now.micros) :
    StaysRevoked jwt ⟨now.micros, revokeToken jwt s.store token now.micros, s.revoked ++ [token]⟩ ↔
      Guard jwt s ⟨token, now, true⟩ := by
  rw [staysRevoked_iff] at h ⊢
  by_cases hstorable : ∃ p jti date, jwt.decode token now.micros = some p ∧
      Storable p now.micros jti date
  · obtain ⟨p, jti, date, hd, hs⟩ := hstorable
    obtain ⟨expiry, hstore, hlt, hwhole, hceil⟩ := revokeToken_storable s.store hd hs
    rw [hstore]
    constructor
    · intro hnext _ _
      have hreach : WholeSeconds (date.value * second - now.micros) := by
        rw [hwhole]
        by_contra hearly
        -- the token is accepted again when the entry expires
        have hwritten := hs.written
        have hfirst := now.first
        let expired : Moment := ⟨expiry, by omega, by rw [second] at *; omega⟩
        have haccepted : jwt.decode token expiry = some p := by
          apply jwt.accepts token now.micros expiry p hd hlt.le
          intro date' hdate'
          rw [hs.hasExpiry] at hdate'
          cases hdate'
          omega
        have hcovered := hnext token (List.mem_append_right _ List.mem_cons_self) expired hlt.le p
          haccepted
        exact lt_irrefl _ ((covered_set_of_eq hs.nonempty hs.hasIdentifier).mp hcovered)
      constructor
      · intro p' jti' date' hd' hs'
        obtain rfl : p = p' := Option.some.inj (hd.symm.trans hd')
        obtain rfl : jti = jti' := Option.some.inj (hs.hasIdentifier.symm.trans hs'.hasIdentifier)
        obtain rfl : date = date' := Option.some.inj (hs.hasExpiry.symm.trans hs'.hasExpiry)
        refine ⟨hreach, ?_⟩
        intro t ht later hlater q hq hj
        rw [← hceil hreach]
        exact (covered_set_of_eq hs.nonempty hj).mp
          (hnext t (List.mem_append_left _ ht) later hlater q hq)
      · intro hnone
        exact absurd hs (hnone p jti date hd)
    · intro hguard t ht later hlater q hq
      obtain ⟨hreach, hothers⟩ := (hguard hle rfl).1 p jti date hd hs
      rw [List.mem_append, List.mem_singleton] at ht
      obtain ht | rfl := ht
      · by_cases hj : q.jti = some jti
        · rw [covered_set_of_eq hs.nonempty hj, hceil hreach]
          exact hothers t ht later hlater q hq hj
        · rw [covered_set_of_ne hj]
          exact h t ht later (hle.trans hlater) q hq
      · obtain rfl : p = q := jwt.payload_eq t _ _ p q hd hq
        rw [covered_set_of_eq hs.nonempty hs.hasIdentifier]
        exact (jwt.until_exp t _ p date hq hs.hasExpiry).trans_le (hwhole.mp hreach)
  · have hnone : ∀ p jti date, jwt.decode token now.micros = some p →
        ¬ Storable p now.micros jti date :=
      fun p jti date hd hs => hstorable ⟨p, jti, date, hd, hs⟩
    rw [revokeToken_of_not_storable hnone]
    constructor
    · intro hnext _ _
      refine ⟨fun p jti date hd hs => absurd hs (hnone p jti date hd), ?_⟩
      intro _ later hlater p hp
      exact hnext token (List.mem_append_right _ List.mem_cons_self) later hlater p hp
    · intro hguard t ht later hlater p hp
      rw [List.mem_append, List.mem_singleton] at ht
      obtain ht | rfl := ht
      · exact h t ht later (hle.trans hlater) p hp
      · exact (hguard hle rfl).2 hnone later hlater p hp

theorem step_eq_none_iff : step jwt s e = none ↔ ¬ s.now ≤ e.now.micros := by
  rw [step]
  split
  · split
    · exact iff_of_false nofun (not_not.mpr ‹_›)
    · exact iff_of_false nofun (not_not.mpr ‹_›)
  · exact iff_of_true rfl ‹_›

theorem staysRevoked_step (h : StaysRevoked jwt s) (ht : step jwt s e = some t) :
    StaysRevoked jwt t ↔ Guard jwt s e := by
  obtain ⟨token, now, redis⟩ := e
  have hle : s.now ≤ now.micros := by
    by_contra hlt
    rw [step_eq_none_iff.mpr hlt] at ht
    cases ht
  rw [step, if_pos hle] at ht
  cases redis with
  | true =>
    cases ht
    exact staysRevoked_revoke h hle
  | false =>
    cases ht
    exact iff_of_true (fun t ht later hlater => h t ht later (hle.trans hlater))
      (fun _ hredis => absurd hredis Bool.false_ne_true)

/-- In every run of revocations the revoked tokens stay revoked exactly when each revocation
meets the condition. -/
theorem revocation_permanent_iff (jwt : Jwt Token) (now : Int) (events : List (Event Token)) :
    Always (step jwt) (StaysRevoked jwt) { now := now } events ↔
      Along (step jwt) (Guard jwt) { now := now } events := by
  apply always_iff_along_all (I := fun _ => True) (fun _ _ _ _ _ => trivial)
  · intro s e hnone hle
    exact absurd hle (step_eq_none_iff.mp hnone)
  · exact fun _ _ _ _ => staysRevoked_step
  · trivial
  · exact fun t ht => nomatch ht

/-- A library that accepts one token, with an identifier, until the tenth second of 2026. -/
def sessionLibrary : Jwt Unit where
  decode _ now :=
    if now < 1767225610 * second then some ⟨some "3f0c".toList, some ⟨1767225610, true, fun _ => rfl⟩⟩
    else none
  payload_eq _ a b p q hp hq := by
    split at hp
    · split at hq
      · exact Option.some.inj (hp.symm.trans hq)
      · cases hq
    · cases hp
  until_exp _ now p e hp he := by
    split at hp
    · next hlt =>
      cases hp
      cases he
      exact hlt
    · cases hp
  accepts _ a b p hp _ hb := by
    split at hp
    · cases hp
      rw [if_pos (hb _ rfl)]
    · cases hp

/-- Half a second after the start of 2026. -/
def logout : Moment := ⟨1767225600500000, by decide, by decide⟩

theorem revoked_token_accepted_again :
    ∃ s, step sessionLibrary { now := 0 } ⟨(), logout, true⟩ = some s ∧
      () ∈ s.revoked ∧
        (verifyToken sessionLibrary s.store true () 1767225609600000).isSome = true := by
  refine ⟨_, rfl, .head _, ?_⟩
  decide +kernel

end Runs

end PipelineIQ.Security.TokenRevocation
