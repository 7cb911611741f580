/-!
# Fixed parts of a client

The class of byte sequences and the functions that convert values to and from the form in which they
are sent, as they stand in every client. A byte sequence is sent as a list of numbers.
-/

namespace AbiBindings.Client.Runtime

/-- The function that turns arguments into the form in which they are sent. -/
def toWire : String := "convertAbiBytesForWasm"

/-- The function that turns a result into the form in which it is used. -/
def fromWire : String := "convertWasmResultToAbiBytes"

/-- The type of the shapes of results. -/
def shapeType : String := "AbiShape"

/-- What a client imports: the application that calls are made on, and their context. -/
def imports : List String := ["CalimeroApp", "Context"]

/-- The class of byte sequences. -/
def bytesClass : String :=
  "/**
 * Binary value exchanged with the remote component.
 */
export class AbiBytes \x7b
  private data: Uint8Array;

  constructor(input: string | number[] | Uint8Array) \x7b
    if (typeof input === 'string') \x7b
      const hex = input.startsWith('0x') ? input.slice(2) : input;
      this.data = new Uint8Array(
        hex.match(/.\x7b1,2\x7d/g)?.map((byte) => parseInt(byte, 16)) || [],
      );
    \x7d else if (Array.isArray(input)) \x7b
      this.data = new Uint8Array(input);
    \x7d else \x7b
      this.data = input;
    \x7d
  \x7d

  toArray(): number[] \x7b
    return Array.from(this.data);
  \x7d

  toUint8Array(): Uint8Array \x7b
    return this.data;
  \x7d

  toHex(): string \x7b
    return Array.from(this.data, (byte) => byte.toString(16).padStart(2, '0')).join('');
  \x7d

  static fromHex(hex: string): AbiBytes \x7b
    return new AbiBytes(hex);
  \x7d

  static fromArray(arr: number[]): AbiBytes \x7b
    return new AbiBytes(arr);
  \x7d

  static fromUint8Array(bytes: Uint8Array): AbiBytes \x7b
    return new AbiBytes(bytes);
  \x7d
\x7d"

/-- The conversion of arguments and results. -/
def converters : String :=
  "/**
 * Where byte sequences sit inside a method result.
 */
type AbiShape =
  | 'bytes'
  | \x7b list: AbiShape \x7d
  | \x7b map: AbiShape \x7d
  | \x7b record: Record<string, AbiShape> \x7d
  | \x7b variant: Record<string, AbiShape> \x7d;

/**
 * Replaces every AbiBytes instance with its number-array wire form.
 */
function convertAbiBytesForWasm(value: any): any \x7b
  if (value === null || value === undefined) \x7b
    return value;
  \x7d
  if (value instanceof AbiBytes) \x7b
    return value.toArray();
  \x7d
  if (Array.isArray(value)) \x7b
    return value.map((item) => convertAbiBytesForWasm(item));
  \x7d
  if (typeof value === 'object') \x7b
    const result: any = \x7b\x7d;
    for (const [key, item] of Object.entries(value)) \x7b
      result[key] = convertAbiBytesForWasm(item);
    \x7d
    return result;
  \x7d
  return value;
\x7d

/**
 * Rebuilds AbiBytes instances at the positions marked by `shape`.
 */
function convertWasmResultToAbiBytes(value: any, shape: AbiShape): any \x7b
  if (value === null || value === undefined) \x7b
    return value;
  \x7d
  if (shape === 'bytes') \x7b
    return Array.isArray(value) ? new AbiBytes(value) : value;
  \x7d
  if ('list' in shape) \x7b
    const items = shape.list;
    return Array.isArray(value)
      ? value.map((item) => convertWasmResultToAbiBytes(item, items))
      : value;
  \x7d
  if (typeof value !== 'object') \x7b
    return value;
  \x7d
  if ('map' in shape) \x7b
    const result: any = \x7b\x7d;
    for (const [key, item] of Object.entries(value)) \x7b
      result[key] = convertWasmResultToAbiBytes(item, shape.map);
    \x7d
    return result;
  \x7d
  const members = 'record' in shape ? shape.record : shape.variant;
  const result: any = \x7b ...value \x7d;
  for (const [key, inner] of Object.entries(members)) \x7b
    if (key in result) \x7b
      result[key] = convertWasmResultToAbiBytes(result[key], inner);
    \x7d
  \x7d
  return result;
\x7d"

end AbiBindings.Client.Runtime
