import Xixi.Http.Request
import Xixi.Lib.Wire
import Xixi.Watch

/-!
# Responses (`Peer_Http`)

A response is a list of slices: constant texts, scratch buffers that `snprintf` has written, and
the data of an item. The length of a slice that `snprintf` has written is what it returns, whatever
the size of the buffer. Buffers (`request_buf_.prepare`) are always granted, so the list of updated
ids is never given up for `XIXI_REASON_OUT_OF_MEMORY`.

1. `Piece`: a slice and the buffer behind it.
2. `Reply`: the responses of the handlers; `Reply.pieces`: their slices.
-/

namespace Xixi.Http
open Lib

/-- An element of `write_buf_`: the size of the buffer, what it holds from its start on, the
length of the slice, and the item that it belongs to. -/
structure Piece where
  room : Nat
  mem : Bytes
  size : Nat
  item : Option Ptr := none
deriving DecidableEq, Repr

namespace Piece

/-- The slice does not go beyond the buffer. -/
def Inside (x : Piece) : Prop := x.size ≤ x.room

instance (x : Piece) : Decidable x.Inside := inferInstanceAs (Decidable (_ ≤ _))

def bytes (x : Piece) : Bytes := x.mem.take x.size

/-- A literal without its terminator. -/
def literal (text : Bytes) : Piece := ⟨text.length + 1, text ++ [0], text.length, none⟩

/-- `add_write_buf(buf, _snprintf(buf, room, …))`: `snprintf` writes at most `room - 1` characters
and a terminator, and returns how many there were. -/
def printed (room : Nat) (text : Bytes) : Piece :=
  ⟨room, if room = 0 then [] else text.take (room - 1) ++ [0], text.length % 2 ^ 32, none⟩

/-- A buffer as long as what was copied into it. -/
def copied (data : Bytes) : Piece := ⟨data.length, data, data.length, none⟩

/-- `add_write_buf(NULL, 0)`. -/
def empty : Piece := ⟨0, [], 0, none⟩

end Piece

/-! ## Constant texts -/

def formatU32 (n : Nat) : Bytes := natDigits 10 (n % 2 ^ 32)

def formatU64 (n : Nat) : Bytes := natDigits 20 (n % 2 ^ 64)

/-- How every response starts. -/
def resHead (status : String) (keepalive : Bool) : Bytes :=
  ascii "HTTP/1.1 " ++ (ascii status ++ (crlf ++ (ascii "Server: Xixibase/0.7" ++ (crlf ++
    (ascii "Connection: " ++ ((if keepalive then ascii "Keep-Alive" else ascii "close") ++ (crlf ++
      ascii "Content-Type: ")))))))

def textHtml : Bytes := ascii "text/html" ++ (crlf ++ ascii "Content-Length: ")

/-- `DEFAULT_RES_200_KEEP_ALIVE` and `DEFAULT_RES_200_CLOSE`. -/
def defaultRes200 (keepalive : Bool) : Bytes := resHead "200 OK" keepalive ++ textHtml

/-- `GET_RES_200_KEEP_ALIVE` and `GET_RES_200_CLOSE`. -/
def getRes200 (keepalive : Bool) : Bytes := resHead "200 OK" keepalive

/-- `GET_RES_304_KEEP_ALIVE` and `GET_RES_304_CLOSE`. -/
def getRes304 (keepalive : Bool) : Bytes := resHead "304 Not Modified" keepalive

/-- `GET_RES_301_KEEP_ALIVE` and `GET_RES_301_CLOSE`. -/
def getRes301 (keepalive : Bool) : Bytes := resHead "301 Moved Permanently" keepalive ++ textHtml

/-- `DELETE_RES_200_KEEP_ALIVE` and `DELETE_RES_200_CLOSE`. -/
def deleteRes200 (keepalive : Bool) : Bytes :=
  resHead "200 OK" keepalive ++ (textHtml ++ (ascii "0" ++ (crlf ++ crlf)))

/-- `ERROR_RES_…_KEEP_ALIVE` and `ERROR_RES_…_CLOSE`. -/
def errorRes (status length : String) (keepalive : Bool) : Bytes :=
  resHead status keepalive ++ (textHtml ++ (ascii length ++ (crlf ++ (crlf ++
    (ascii "<H1>" ++ (ascii status ++ ascii "</H1>"))))))

def errorRes413 : Bool → Bytes := errorRes "413 Request Entity Too Large" "37"

/-- The text of `write_error`. The one for `XIXI_REASON_TOO_LARGE` on a connection that is closed
takes the text of the other, with its own length. -/
def writeErrorRes (keepalive : Bool) : Reason → Piece
  | .cache .notFound => .literal (errorRes "404 Not Found" "22" keepalive)
  | .cache .tooLarge =>
    if keepalive then .literal (errorRes413 true)
    else { Piece.literal (errorRes413 true) with size := (errorRes413 false).length }
  | .authError => .literal (errorRes "401 Unauthorized" "25" keepalive)
  | .cache .outOfMemory => .literal (errorRes "500 Internal Server Error" "34" keepalive)
  | _ => .literal (errorRes "400 Bad Request" "24" keepalive)

/-! ## gzip -/

def outUint32 (x : Nat) : Bytes := (encodeBE 4 x).reverse

/-- The loop of `gzip_encode`: full chunks, and a last one that is not. -/
def gzipChunks (chunkSize : Nat) : Nat → Bytes → List Piece
  | 0, z => [⟨chunkSize, z, z.length, none⟩]
  | fuel + 1, z =>
    if z.length < chunkSize then [⟨chunkSize, z, z.length, none⟩]
    else ⟨chunkSize, z.take chunkSize, chunkSize, none⟩ :: gzipChunks chunkSize fuel (z.drop chunkSize)

/-- The slices of `gzip_encode`, when `deflate` makes `z` of the data. -/
def gzipPieces (crc : Nat) (data z : Bytes) : List Piece :=
  .copied [31, 139, 8, 0, 0, 0, 0, 0, 0, 3] ::
    (gzipChunks (min 4096 data.length) z.length z ++
      [.copied (outUint32 crc ++ outUint32 data.length)])

/-- What `gzip_encode` returns then. -/
def gzipSize (z : Bytes) : Nat := (10 + z.length + 8) % 2 ^ 32

/-! ## The responses of the handlers -/

inductive Reply
  | error (reason : Reason)
  | notModified (mimeType : Bytes) (cacheId flags expiration : Nat)
  /-- `gzip` has what `deflate` has made of the data, if that is sent instead, and its checksum. -/
  | content (isHead : Bool) (mimeType : Bytes) (cacheId flags expiration : Nat) (item : Ptr)
      (data : Bytes) (gzip : Option (Nat × Bytes))
  | movedPermanently (key : Text)
  | update (cacheId : Nat)
  | updateFlags (cacheId : Nat)
  | touch (cacheId : Nat)
  | delete
  | delta (value : Int) (cacheId : Nat)
  | getBase (mimeType : Bytes) (cacheId flags expiration dataSize : Nat)
  | createWatch (watchId : Nat)
  | flush (flushCount flushSize : Nat)
  | stats (result : Bytes)
  | updateList (updatedList : List Nat)
deriving DecidableEq, Repr

namespace Reply

/-- The `ETag` of an item. -/
def etag (cacheId : Nat) : Bytes := ascii "\"" ++ (formatU64 cacheId ++ ascii "\"")

/-- The header of `process_get` from the cache id on. -/
def itemFields (cacheId flags expiration : Nat) : Bytes :=
  ascii "CacheID: " ++ (formatU64 cacheId ++ (crlf ++ (ascii "Flags: " ++ (formatU32 flags ++ (crlf ++
    (ascii "Expiration: " ++ (formatU32 expiration ++ (crlf ++ (ascii "ETag: " ++
      (etag cacheId ++ (crlf ++ crlf)))))))))))

/-- The header of a response without content. -/
def notModifiedHeader (mimeType : Bytes) (cacheId flags expiration : Nat) : Bytes :=
  cString mimeType ++ (crlf ++ itemFields cacheId flags expiration)

/-- The header of a response with content. -/
def contentHeader (mimeType : Bytes) (gzip : Bool) (size cacheId flags expiration : Nat) : Bytes :=
  cString mimeType ++ (crlf ++ ((if gzip then ascii "Content-Encoding: gzip" ++ crlf else []) ++
    (ascii "Content-Length: " ++ (formatU32 size ++ (crlf ++ itemFields cacheId flags expiration)))))

/-- The text of a redirection in front of the address. -/
def movedFront : Bytes :=
  ascii "<HTML><HEAD><TITLE>301 Moved</TITLE></HEAD><BODY><H1>301 Moved</H1>The document has moved" ++
    ascii "<A HREF=\""

/-- The text of a redirection behind the address. -/
def movedEnd : Bytes := ascii "/\">here</A>.</BODY></HTML>"

def movedBody (key : Bytes) : Bytes := movedFront ++ (key ++ movedEnd)

def movedHeader (size : Nat) (key : Bytes) : Bytes :=
  formatU32 size ++ (crlf ++ (ascii "Location: " ++ (key ++ (ascii "/" ++ (crlf ++ crlf)))))

def cacheIdBody (cacheId : Nat) : Bytes :=
  ascii "\x7b\"cacheid\":" ++ (formatU64 cacheId ++ ascii "\x7d")

def deltaBody (value : Int) (cacheId : Nat) : Bytes :=
  ascii "\x7b\"value\":" ++ (formatInt64 value ++ (ascii ",\"cacheid\":" ++
    (formatU64 cacheId ++ ascii "\x7d")))

def getBaseBody (mimeType : Bytes) (cacheId flags expiration dataSize : Nat) : Bytes :=
  ascii "\x7b\"cacheid\":" ++ (formatU64 cacheId ++ (ascii ",\"flags\":" ++ (formatU32 flags ++
    (ascii ",\"expiration\":" ++ (formatU32 expiration ++ (ascii ",\"mime_type\":\"" ++
      (cString mimeType ++ (ascii "\",\"size\":" ++ (formatU32 dataSize ++ ascii "\x7d")))))))))

def watchIdBody (watchId : Nat) : Bytes :=
  ascii "\x7b\"watchid\":" ++ (formatU32 watchId ++ ascii "\x7d")

def flushBody (flushCount flushSize : Nat) : Bytes :=
  ascii "\x7b\"flushcount\":" ++ (formatU32 flushCount ++ (ascii ",\"flushsize\":" ++
    (formatU64 flushSize ++ ascii "\x7d")))

/-- The length of the body and the empty line, behind `DEFAULT_RES_200_…`. -/
def lengthHeader (size : Nat) : Bytes := formatU32 size ++ (crlf ++ crlf)

/-- A body that `snprintf` writes, behind a header of its own. -/
def printedBody (keepalive : Bool) (bodyRoom headerRoom : Nat) (body : Bytes) : List Piece :=
  [.literal (defaultRes200 keepalive), .printed headerRoom (lengthHeader body.length),
    .printed bodyRoom body]

/-- The text that `encode_update_list` writes for an element. -/
def updateText (isBegin : Bool) (cacheId : Nat) : Bytes :=
  (if isBegin then [] else [44]) ++ formatU64 cacheId

/-- The loop of `encode_update_list`; `buf` has what stands in the buffer in use. What `snprintf`
writes has at most 21 characters, and there is room for 30. -/
def updateSlices (isBegin : Bool) (buf : Bytes) : List Nat → List Piece
  | [] => if 0 < buf.length then [⟨2000, buf, buf.length, none⟩] else []
  | cacheId :: rest =>
    let buf := buf ++ updateText isBegin cacheId
    if 2000 < buf.length + 30 then ⟨2000, buf, buf.length, none⟩ :: updateSlices false [] rest
    else updateSlices false buf rest

/-- `total_size`. -/
def updateSize (isBegin : Bool) : List Nat → Nat
  | [] => 0
  | cacheId :: rest => ((updateText isBegin cacheId).length + updateSize false rest) % 2 ^ 32

/-- The slices of a response, in an empty `write_buf_`. -/
def pieces (keepalive : Bool) : Reply → List Piece
  | .error reason => [writeErrorRes keepalive reason]
  | .notModified mimeType cacheId flags expiration =>
    [.literal (getRes304 keepalive),
      .printed 200 (notModifiedHeader mimeType cacheId flags expiration)]
  | .content isHead mimeType cacheId flags expiration item data gzip =>
    let size := match gzip with
      | some (_, z) => gzipSize z
      | none => data.length
    [.literal (getRes200 keepalive),
      .printed 300 (contentHeader mimeType gzip.isSome size cacheId flags expiration)] ++
      if isHead then []
      else match gzip with
        | some (crc, z) => gzipPieces crc data z
        | none => [⟨data.length, data, data.length, some item⟩]
  | .movedPermanently key =>
    let text := cString key.mem
    let body := movedBody text
    [.literal (getRes301 keepalive),
      .printed ((35 + key.length) % 2 ^ 32) (movedHeader body.length text),
      .printed ((150 + key.length) % 2 ^ 32) body]
  | .update cacheId => printedBody keepalive 50 30 (cacheIdBody cacheId)
  | .updateFlags cacheId => printedBody keepalive 50 50 (cacheIdBody cacheId)
  | .touch cacheId => printedBody keepalive 50 50 (cacheIdBody cacheId)
  | .delete => [.literal (deleteRes200 keepalive)]
  | .delta value cacheId => printedBody keepalive 100 50 (deltaBody value cacheId)
  | .getBase mimeType cacheId flags expiration dataSize =>
    printedBody keepalive 200 30 (getBaseBody mimeType cacheId flags expiration dataSize)
  | .createWatch watchId => printedBody keepalive 50 50 (watchIdBody watchId)
  | .flush flushCount flushSize => printedBody keepalive 50 50 (flushBody flushCount flushSize)
  | .stats result =>
    let size := result.length % 2 ^ 32
    [.literal (defaultRes200 keepalive), .printed 50 (lengthHeader size), .copied (result.take size)]
  | .updateList updatedList =>
    [.literal (defaultRes200 keepalive), .printed 50 (lengthHeader (updateSize true updatedList))] ++
      updateSlices true [] updatedList

/-- `update_write_buf(index, …)`. -/
def updateWriteBuf (index : Nat) (x : Piece) (writeBuf : List Piece) : List Piece :=
  if index < writeBuf.length then writeBuf.set index x else writeBuf

/-- What a response makes of `write_buf_`. `encode_update_list` adds two empty slices, and fills in
the first two of all. -/
def addTo (keepalive : Bool) (r : Reply) (writeBuf : List Piece) : List Piece :=
  match r with
  | .updateList updatedList =>
    updateWriteBuf 1 (.printed 50 (lengthHeader (updateSize true updatedList)))
      (updateWriteBuf 0 (.literal (defaultRes200 keepalive))
        (writeBuf ++ [.empty, .empty] ++ updateSlices true [] updatedList))
  | r => writeBuf ++ r.pieces keepalive

end Reply
end Xixi.Http
