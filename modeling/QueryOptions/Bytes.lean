/-! Bytes of words and strings. -/

namespace QueryOptions

def littleEndian (word : UInt64) : List UInt8 :=
  [word.toUInt8, (word >>> 8).toUInt8, (word >>> 16).toUInt8, (word >>> 24).toUInt8,
   (word >>> 32).toUInt8, (word >>> 40).toUInt8, (word >>> 48).toUInt8, (word >>> 56).toUInt8]

def utf8Bytes (text : String) : List UInt8 :=
  text.toByteArray.data.toList

end QueryOptions
