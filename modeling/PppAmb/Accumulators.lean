import PppAmb.CityAttempts

/-!
# The Accumulators of the Modem

`at_acc_cb` and `ul_http_evt` of `main/modem_ppp.c` collect in arrays what arrives in pieces: the
answers of the modem to two commands, and the answer of the geolocation server. Here they are
taken with the integer types of the program, `size_t` of 32 bits and `int`: the room that is left
is a difference, and that of the unsigned accumulator would be huge if it ever wrapped.

## Main results

* `AtAcc.Collected.piece`, `UlAccum32.Collected.event`: what one call does.
* `accumulators_collect`: the arrays hold the front of the stream with a terminator behind it,
  no difference wraps, and the split into pieces does not matter.
* `ulCollect_eq_collect`: the accumulator of `modem_unwiredlabs_city_state` in its model over
  natural numbers.
-/

namespace PppAmb

/-! ### The answers of the modem -/

/-- `at_acc_t`; a null pointer is `none`. -/
structure AtAcc where
  buf : Option Bytes
  size : UInt32
  used : UInt32
  deriving DecidableEq

/-- The arguments of `at_acc_cb`. -/
structure AtPiece where
  data : Bytes
  len : UInt32
  length_eq : len.toNat = data.length

/-- `at_acc_cb`: `s_acc` behind the call. -/
def at_acc_cb (s_acc : AtAcc) (p : AtPiece) : AtAcc :=
  let n := if p.len < s_acc.size - s_acc.used - 1 then p.len else s_acc.size - s_acc.used - 1
  match s_acc.buf with
  | some buf =>
      if n > 0 then
        { s_acc with
          buf := some ((memcpy buf s_acc.used.toNat (p.data.take n.toNat)).set
            (s_acc.used + n).toNat 0)
          used := s_acc.used + n }
      else s_acc
  | none => s_acc

/-- The set-up of `s_acc` in `modem_ppp_start_blocking`, for `at_rsp`. -/
def AtAcc.start : AtAcc :=
  ⟨some (zeroed 64), 64, 0⟩

/-- `s_acc` behind some pieces, of one command or of both. -/
def atCollect (pieces : List AtPiece) : AtAcc :=
  pieces.foldl at_acc_cb .start

/-- The bytes of some pieces. -/
def atStream (pieces : List AtPiece) : Bytes :=
  pieces.flatMap AtPiece.data

/-- The accumulator with its array of `n` bytes holds a text and NULs behind it. -/
structure AtAcc.Collected (acc : AtAcc) (n : ℕ) (text : Bytes) : Prop where
  size : acc.size.toNat = n
  used : acc.used.toNat = text.length
  room : text.length < n
  content : acc.buf = some (textArray n text)

/-- The room that is left: the difference does not wrap. -/
theorem AtAcc.Collected.room_eq {acc : AtAcc} {n : ℕ} {text : Bytes} (h : acc.Collected n text) :
    (acc.size - acc.used - 1).toNat = n - 1 - text.length := by
  have hroom := h.room
  have hused : acc.used ≤ acc.size := by
    rw [UInt32.le_iff_toNat_le, h.size, h.used]
    omega
  have hdiff : (acc.size - acc.used).toNat = n - text.length := by
    rw [UInt32.toNat_sub_of_le _ _ hused, h.size, h.used]
  have hone : (1 : UInt32) ≤ acc.size - acc.used := by
    rw [UInt32.le_iff_toNat_le, hdiff]
    change 1 ≤ n - text.length
    omega
  rw [UInt32.toNat_sub_of_le _ _ hone, hdiff]
  change n - text.length - 1 = _
  omega

/-- **A piece** extends the text as far as the array reaches. -/
theorem AtAcc.Collected.piece {acc : AtAcc} {n : ℕ} {text : Bytes} (h : acc.Collected n text)
    (p : AtPiece) : (at_acc_cb acc p).Collected n ((text ++ p.data).take (n - 1)) := by
  have hrest := h.room_eq
  obtain ⟨hsize, hused, hroom, hbuf⟩ := h
  set k := if p.len < acc.size - acc.used - 1 then p.len else acc.size - acc.used - 1 with hk
  have hkn : k.toNat = min p.data.length (n - 1 - text.length) := by
    rw [hk, ← p.length_eq, ← hrest]
    split
    · rename_i hlt
      exact (Nat.min_eq_left (le_of_lt (UInt32.lt_iff_toNat_lt.mp hlt))).symm
    · rename_i hge
      exact (Nat.min_eq_right (not_lt.mp (mt UInt32.lt_iff_toNat_lt.mpr hge))).symm
  obtain ⟨hcopy, hlen⟩ := memcpy_piece hroom hkn
  have hfits : text.length + k.toNat < n := by omega
  simp only [at_acc_cb, hbuf, ← hk]
  by_cases hpos : k > 0
  · have hadd : (acc.used + k).toNat = text.length + k.toNat := by
      have hsize' := acc.size.toNat_lt
      rw [UInt32.toNat_add, hused, Nat.mod_eq_of_lt (by omega)]
    rw [if_pos hpos]
    refine ⟨hsize, by rw [hlen, hadd], by omega, ?_⟩
    rw [hadd, hused, hcopy]
  · have hzero : k.toNat = 0 := by
      rw [gt_iff_lt, UInt32.lt_iff_toNat_lt, not_lt] at hpos
      exact Nat.le_zero.mp hpos
    have hstay : (text ++ p.data).take (n - 1) = text := by
      rw [take_piece hroom hkn, hzero, List.take_zero, List.append_nil]
    rw [if_neg hpos, hstay]
    exact ⟨hsize, hused, hroom, hbuf⟩

/-- The pieces that are collected. -/
theorem atCollect_collected (pieces : List AtPiece) :
    (atCollect pieces).Collected 64 ((atStream pieces).take (64 - 1)) := by
  have hstart : AtAcc.start.Collected 64 [] := ⟨rfl, rfl, by simp, rfl⟩
  exact foldl_collect (fun (acc : AtAcc) text => acc.Collected 64 text)
    (fun _ _ p _ h => h.piece p) pieces (Nat.zero_le _) hstart

/-! ### The answer of the geolocation server -/

/-- `esp_http_client_event_id_t`. -/
inductive HttpEventId
  | error
  | onConnected
  | headersSent
  | onHeader
  | onData
  | onFinish
  | disconnected
  | redirect
  deriving DecidableEq, Repr

/-- What `ul_http_evt` reads of an event, `user_data` apart; a null pointer is `none`. -/
structure ClientEvent where
  event_id : HttpEventId
  data : Option Bytes
  data_len : Int32
  length_eq : ∀ d, data = some d → data_len.toInt = d.length

/-- `ul_accum_t`; a null pointer is `none`. -/
structure UlAccum32 where
  buf : Option Bytes
  max : Int32
  len : Int32
  deriving DecidableEq

/-- `ul_http_evt`: the accumulator `user_data` points to, behind the event. -/
def ul_http_evt32 (acc : UlAccum32) (evt : ClientEvent) : UlAccum32 :=
  match acc.buf, evt.data with
  | some buf, some data =>
      if evt.event_id = .onData ∧ evt.data_len ≠ 0 then
        let room := acc.max - acc.len - 1
        let n := if evt.data_len < room then evt.data_len else room
        if n > 0 then
          { acc with
            buf := some ((memcpy buf acc.len.toInt.toNat (data.take n.toInt.toNat)).set
              (acc.len + n).toInt.toNat 0)
            len := acc.len + n }
        else acc
      else acc
  | _, _ => acc

/-- The set-up of an attempt in `modem_unwiredlabs_city_state`, for `ul_body`. -/
def UlAccum32.start : UlAccum32 :=
  ⟨some (zeroed UL_BODY_MAX), .ofNat UL_BODY_MAX, 0⟩

/-- The accumulator behind some events. -/
def ulCollect (events : List ClientEvent) : UlAccum32 :=
  events.foldl ul_http_evt32 .start

/-- The bytes an event brings. -/
def ClientEvent.bytes (evt : ClientEvent) : Bytes :=
  if evt.event_id = .onData then evt.data.getD [] else []

/-- The bytes of some events. -/
def ulStream (events : List ClientEvent) : Bytes :=
  events.flatMap ClientEvent.bytes

/-- The accumulator with its array of `n` bytes holds a text and NULs behind it. -/
structure UlAccum32.Collected (acc : UlAccum32) (n : ℕ) (text : Bytes) : Prop where
  max : acc.max.toInt = n
  len : acc.len.toInt = text.length
  room : text.length < n
  content : acc.buf = some (textArray n text)

/-- The room that is left: no difference leaves the range of `int`. -/
theorem UlAccum32.Collected.room_eq {acc : UlAccum32} {n : ℕ} {text : Bytes}
    (h : acc.Collected n text) :
    (acc.max - acc.len - 1).toInt = (n - 1 - text.length : ℕ) := by
  have hroom := h.room
  have hlen0 : 0 ≤ acc.len := by
    rw [Int32.le_iff_toInt_le, h.len, Int32.toInt_zero]
    omega
  have hlen : acc.len ≤ acc.max := by
    rw [Int32.le_iff_toInt_le, h.max, h.len]
    omega
  have hdiff : (acc.max - acc.len).toInt = n - text.length := by
    rw [Int32.toInt_sub_of_le _ _ hlen0 hlen, h.max, h.len]
  have hone : 1 ≤ acc.max - acc.len := by
    rw [Int32.le_iff_toInt_le, hdiff, Int32.toInt_one]
    omega
  rw [Int32.toInt_sub_of_le _ _ (by decide) hone, hdiff, Int32.toInt_one]
  omega

/-- **An event** extends the text by its bytes, as far as the array reaches. -/
theorem UlAccum32.Collected.event {acc : UlAccum32} {n : ℕ} {text : Bytes}
    (h : acc.Collected n text) (evt : ClientEvent) :
    (ul_http_evt32 acc evt).Collected n ((text ++ evt.bytes).take (n - 1)) := by
  have hrest := h.room_eq
  obtain ⟨hmax, hlen, hroom, hbuf⟩ := h
  have hstay : acc.Collected n ((text ++ []).take (n - 1)) := by
    rw [List.append_nil, List.take_of_length_le (by omega)]
    exact ⟨hmax, hlen, hroom, hbuf⟩
  rcases hdata : evt.data with _ | data
  · have hbytes : evt.bytes = [] := by simp [ClientEvent.bytes, hdata]
    rw [hbytes]
    simpa only [ul_http_evt32, hbuf, hdata] using hstay
  have hdatalen := evt.length_eq data hdata
  simp only [ul_http_evt32, hbuf, hdata]
  by_cases hid : evt.event_id = .onData ∧ evt.data_len ≠ 0
  · have hbytes : evt.bytes = data := by simp [ClientEvent.bytes, hid.1, hdata]
    rw [if_pos hid, hbytes]
    set k := if evt.data_len < acc.max - acc.len - 1 then evt.data_len
      else acc.max - acc.len - 1 with hk
    have hkint : k.toInt = (min data.length (n - 1 - text.length) : ℕ) := by
      rw [hk, Nat.cast_min, ← hdatalen, ← hrest]
      split
      · rename_i hlt
        exact (min_eq_left (le_of_lt (Int32.lt_iff_toInt_lt.mp hlt))).symm
      · rename_i hge
        exact (min_eq_right (not_lt.mp (mt Int32.lt_iff_toInt_lt.mpr hge))).symm
    have hkn : k.toInt.toNat = min data.length (n - 1 - text.length) := by
      rw [hkint, Int.toNat_natCast]
    obtain ⟨hcopy, hlen'⟩ := memcpy_piece hroom hkn
    by_cases hpos : k > 0
    · have hadd : (acc.len + k).toInt = (text.length + k.toInt.toNat : ℕ) := by
        have hmax' := acc.max.toInt_lt
        rw [Int32.toInt_add, hlen, Int.bmod_eq_of_le (by omega) (by omega)]
        omega
      rw [if_pos hpos]
      refine ⟨hmax, by rw [hlen', hadd], by omega, ?_⟩
      rw [hadd, hlen, Int.toNat_natCast, Int.toNat_natCast, hcopy]
    · have hzero : k.toInt.toNat = 0 := by
        rw [gt_iff_lt, Int32.lt_iff_toInt_lt, Int32.toInt_zero, not_lt] at hpos
        omega
      rw [if_neg hpos, take_piece hroom hkn, hzero, List.take_zero, List.append_nil]
      exact ⟨hmax, hlen, hroom, hbuf⟩
  · have hbytes : evt.bytes = [] := by
      rw [ClientEvent.bytes]
      split
      · rename_i hon
        -- an event without a length brings nothing
        have hzero : evt.data_len = 0 := by
          by_contra hne
          exact hid ⟨hon, hne⟩
        rw [hzero, Int32.toInt_zero] at hdatalen
        rw [hdata, Option.getD_some]
        exact List.length_eq_zero_iff.mp (by omega)
      · rfl
    rw [if_neg hid, hbytes]
    exact hstay

/-- The events that are collected. -/
theorem ulCollect_collected (events : List ClientEvent) :
    (ulCollect events).Collected UL_BODY_MAX ((ulStream events).take (UL_BODY_MAX - 1)) := by
  have hstart : UlAccum32.start.Collected UL_BODY_MAX [] := ⟨rfl, rfl, by decide, rfl⟩
  exact foldl_collect (fun (acc : UlAccum32) text => acc.Collected UL_BODY_MAX text)
    (fun _ _ evt _ h => h.event evt) events (Nat.zero_le _) hstart

/-! ### Whatever the split -/

/-- The text determines the accumulator. -/
theorem AtAcc.Collected.unique {acc acc' : AtAcc} {n : ℕ} {text : Bytes}
    (h : acc.Collected n text) (h' : acc'.Collected n text) : acc = acc' := by
  obtain ⟨buf, size, used⟩ := acc
  obtain ⟨buf', size', used'⟩ := acc'
  have hsize : size = size' := UInt32.toNat_inj.mp (h.size.trans h'.size.symm)
  have hused : used = used' := UInt32.toNat_inj.mp (h.used.trans h'.used.symm)
  have hbuf : buf = buf' := h.content.trans h'.content.symm
  rw [hbuf, hsize, hused]

theorem UlAccum32.Collected.unique {acc acc' : UlAccum32} {n : ℕ} {text : Bytes}
    (h : acc.Collected n text) (h' : acc'.Collected n text) : acc = acc' := by
  obtain ⟨buf, max, len⟩ := acc
  obtain ⟨buf', max', len'⟩ := acc'
  have hmax : max = max' := Int32.toInt_inj.mp (h.max.trans h'.max.symm)
  have hlen : len = len' := Int32.toInt_inj.mp (h.len.trans h'.len.symm)
  have hbuf : buf = buf' := h.content.trans h'.content.symm
  rw [hbuf, hmax, hlen]

/-- **The accumulators.** For every sequence of pieces and of events, of any number and lengths:
the fill counters stay below the capacity, the differences that give the room do not wrap, and the
arrays hold as much of the stream as fits in front of a terminator; with the same stream, the
accumulators are the same, however it is split. -/
theorem accumulators_collect :
    (∀ pieces : List AtPiece, let acc := atCollect pieces
      acc.used.toNat ≤ 64 - 1 ∧
        ((acc.size - acc.used - 1).toNat : ℤ) = acc.size.toNat - acc.used.toNat - 1 ∧
        acc.buf = some (textArray 64 ((atStream pieces).take (64 - 1)))) ∧
    (∀ events : List ClientEvent, let acc := ulCollect events
      (0 ≤ acc.len.toInt ∧ acc.len.toInt ≤ UL_BODY_MAX - 1) ∧
        (acc.max - acc.len - 1).toInt = acc.max.toInt - acc.len.toInt - 1 ∧
        acc.buf = some (textArray UL_BODY_MAX ((ulStream events).take (UL_BODY_MAX - 1)))) ∧
    (∀ pieces pieces' : List AtPiece, atStream pieces = atStream pieces' →
      atCollect pieces = atCollect pieces') ∧
    ∀ events events' : List ClientEvent, ulStream events = ulStream events' →
      ulCollect events = ulCollect events' := by
  refine ⟨fun pieces => ?_, fun events => ?_, fun pieces pieces' hsame => ?_,
    fun events events' hsame => ?_⟩
  · have h := atCollect_collected pieces
    have hroom := h.room
    refine ⟨by rw [h.used]; omega, ?_, h.content⟩
    rw [h.room_eq, h.size, h.used]
    omega
  · have h := ulCollect_collected events
    have hroom := h.room
    refine ⟨⟨by rw [h.len]; omega, by rw [h.len]; omega⟩, ?_, h.content⟩
    rw [h.room_eq, h.max, h.len]
    omega
  · have h := atCollect_collected pieces
    rw [hsame] at h
    exact h.unique (atCollect_collected pieces')
  · have h := ulCollect_collected events
    rw [hsame] at h
    exact h.unique (ulCollect_collected events')

/-- The event that brings some bytes. -/
def ClientEvent.ofData (data : Bytes) (data_len : Int32) (h : data_len.toInt = data.length) :
    ClientEvent where
  event_id := .onData
  data := some data
  data_len := data_len
  length_eq := fun _ hd => Option.some.inj hd ▸ h

theorem accumulators_collect_ok :
    atCollect [⟨ascii "OK", 2, rfl⟩, ⟨ascii "\r\n", 2, rfl⟩]
        = atCollect [⟨ascii "O", 1, rfl⟩, ⟨[], 0, rfl⟩, ⟨ascii "K\r\n", 3, rfl⟩] ∧
      ulCollect [.ofData (ascii "OK") 2 rfl, .ofData (ascii "\r\n") 2 rfl]
        = ulCollect [.ofData (ascii "O") 1 rfl, .ofData [] 0 rfl,
          .ofData (ascii "K\r\n") 3 rfl] := by
  obtain ⟨-, -, hat, hul⟩ := accumulators_collect
  exact ⟨hat _ _ rfl, hul _ _ rfl⟩

/-- The accumulator over natural numbers holds the same. -/
theorem ulCollect_eq_collect {events : List ClientEvent} {es : List HttpEvent}
    (h : ulStream events = (es.map HttpEvent.data).flatten) :
    (ulCollect events).buf = some (UlAccum.collect es).buf ∧
      (ulCollect events).max.toInt = (UlAccum.collect es).max ∧
      (ulCollect events).len.toInt = (UlAccum.collect es).len := by
  have hevents := ulCollect_collected events
  rw [h] at hevents
  rw [collect_eq]
  exact ⟨hevents.content, hevents.max, hevents.len⟩

end PppAmb
